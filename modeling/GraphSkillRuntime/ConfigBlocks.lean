import Mathlib.Data.List.Infix
import Mathlib.Order.Nat

/-!
The managed block of a shared text configuration: how its markers are found, how it is put behind the
text that is there, and how it is taken out again.
-/

namespace GraphSkillRuntime

section Search

variable {α : Type}

/-- No occurrence of the pattern reaches over the end of `u`. -/
def Barrier (pattern u : List α) : Prop := ∀ a ∈ u.getLast?, a ∉ pattern

theorem Barrier.tail {pattern u : List α} {a : α} (h : Barrier pattern (a :: u)) : Barrier pattern u := by
  intro b hmem
  apply h b
  cases u with
  | nil => cases hmem
  | cons c u => exact hmem

theorem Barrier.drop {pattern u : List α} (h : Barrier pattern u) (n : ℕ) : Barrier pattern (u.drop n) := by
  induction n generalizing u with
  | zero => exact h
  | succ n ih =>
    cases u with
    | nil => exact h
    | cons a u => exact ih h.tail

theorem Barrier.prefix_of_append {pattern u : List α} (h : Barrier pattern u) (hne : u ≠ []) {v : List α}
    (hp : pattern <+: u ++ v) : pattern <+: u := by
  rcases Nat.le_total pattern.length u.length with hle | hle
  · exact List.prefix_of_prefix_length_le hp (List.prefix_append _ _) hle
  · obtain ⟨rest, hrest⟩ := List.prefix_of_prefix_length_le (List.prefix_append _ _) hp hle
    have hlast : u.getLast hne ∈ pattern := by
      rw [← hrest]
      exact List.mem_append_left _ (List.getLast_mem _)
    exact absurd hlast (h _ (List.getLast?_eq_some_getLast _))

/-- No occurrence of the pattern begins in `u`. -/
def Clear (pattern u v : List α) : Prop := ∀ i < u.length, ¬ pattern <+: (u ++ v).drop i

theorem Barrier.clear {pattern u : List α} (h : Barrier pattern u) (hu : ¬ pattern <:+: u) (v : List α) :
    Clear pattern u v := by
  intro i hi hp
  rw [List.drop_append_of_le_length (Nat.le_of_lt hi)] at hp
  have hne : u.drop i ≠ [] := by
    rw [ne_eq, List.drop_eq_nil_iff]
    omega
  exact hu (((h.drop i).prefix_of_append hne hp).isInfix.trans (List.drop_suffix i u).isInfix)

theorem Clear.congr {pattern u v w x : List α} (h : Clear pattern u (x ++ v)) (hx : pattern.length ≤ x.length) :
    Clear pattern u (x ++ w) := by
  intro i hi hp
  apply h i hi
  have hsplit (y : List α) : (u ++ (x ++ y)).drop i = (u ++ x).drop i ++ y := by
    rw [← List.append_assoc, List.drop_append_of_le_length (by rw [List.length_append]; omega)]
  rw [hsplit] at hp ⊢
  have hle : pattern.length ≤ ((u ++ x).drop i).length := by
    rw [List.length_drop, List.length_append]
    omega
  exact (List.prefix_of_prefix_length_le hp (List.prefix_append _ _) hle).trans (List.prefix_append _ _)

variable [DecidableEq α]

/-- The first place where the pattern stands, as `bytes.find` gives it. -/
def find? (pattern : List α) : List α → Option ℕ
  | [] => if pattern = [] then some 0 else none
  | a :: s => if pattern <+: a :: s then some 0 else (find? pattern s).map (· + 1)

theorem find?_eq_none {pattern s : List α} : find? pattern s = none ↔ ¬ pattern <:+: s := by
  induction s with
  | nil =>
    rw [find?, List.infix_nil]
    split_ifs with h <;> simp [h]
  | cons a s ih =>
    rw [find?, List.infix_cons_iff]
    split_ifs with h
    · simp [h]
    · simp [h, ih]

theorem prefix_drop_of_find? {pattern s : List α} {i : ℕ} (h : find? pattern s = some i) :
    pattern <+: s.drop i := by
  induction s generalizing i with
  | nil =>
    rw [find?] at h
    split_ifs at h with hp
    simp [hp]
  | cons a s ih =>
    rw [find?] at h
    split_ifs at h with hp
    · cases h
      exact hp
    · obtain ⟨j, hj, rfl⟩ := Option.map_eq_some_iff.mp h
      exact ih hj

theorem find?_le {pattern s : List α} {i j : ℕ} (h : find? pattern s = some i) (hj : pattern <+: s.drop j) :
    i ≤ j := by
  induction s generalizing i j with
  | nil =>
    rw [find?] at h
    split_ifs at h
    cases h
    exact Nat.zero_le j
  | cons a s ih =>
    rw [find?] at h
    split_ifs at h with hp
    · cases h
      exact Nat.zero_le j
    · obtain ⟨k, hk, rfl⟩ := Option.map_eq_some_iff.mp h
      cases j with
      | zero => exact absurd hj hp
      | succ j => exact Nat.succ_le_succ (ih hk hj)

theorem find?_append {pattern u v : List α} (h : Clear pattern u v) :
    find? pattern (u ++ v) = (find? pattern v).map (· + u.length) := by
  induction u with
  | nil => simp
  | cons a u ih =>
    have htail : Clear pattern u v := fun i hi => h (i + 1) (Nat.succ_lt_succ hi)
    have hinit : ¬ pattern <+: a :: (u ++ v) := h 0 (Nat.succ_pos _)
    rw [List.cons_append, find?, if_neg hinit, ih htail, Option.map_map]
    rfl

theorem clear_of_find? {pattern u v : List α} {i : ℕ} (h : find? pattern (u ++ v) = some i) (hi : u.length ≤ i) :
    Clear pattern u v := by
  intro j hj hp
  have := find?_le h hp
  omega

theorem find?_append_left {pattern u v : List α} (hne : pattern ≠ []) (h : Barrier pattern u)
    (hv : ¬ pattern <:+: v) : find? pattern (u ++ v) = find? pattern u := by
  induction u with
  | nil =>
    rw [List.nil_append, find?_eq_none.mpr hv, find?, if_neg hne]
  | cons a u ih =>
    have hinit : pattern <+: a :: (u ++ v) ↔ pattern <+: a :: u :=
      ⟨h.prefix_of_append (List.cons_ne_nil a u), fun hp => hp.trans (List.prefix_append (a :: u) v)⟩
    rw [List.cons_append, find?, find?, ih h.tail]
    simp only [hinit]

end Search

namespace Installer

abbrev Bytes := List UInt8

def lf : UInt8 := 10

def cr : UInt8 := 13

structure Marker where
  name : Bytes
  oneLine : lf ∉ name
  deriving DecidableEq

namespace Marker

def beginLine (m : Marker) : Bytes := [35, 32, 62, 62, 62, 32] ++ m.name ++ [32, 62, 62, 62]

def endLine (m : Marker) : Bytes := [35, 32, 60, 60, 60, 32] ++ m.name ++ [32, 60, 60, 60]

end Marker

inductive MarkerError where
  | incomplete
  | duplicated
  deriving DecidableEq

def blockEnd (content : Bytes) (i : ℕ) : ℕ :=
  if [cr, lf] <+: content.drop i then i + 2
  else if [lf] <+: content.drop i ∨ [cr] <+: content.drop i then i + 1
  else i

def markerBounds (content : Bytes) (m : Marker) : Except MarkerError (Option (ℕ × ℕ)) :=
  match find? m.beginLine content, find? m.endLine content with
  | none, none => .ok none
  | none, some _ => .error .incomplete
  | some _, none => .error .incomplete
  | some b, some e =>
    if e < b then .error .incomplete
    else if (find? m.beginLine (content.drop (b + 1))).isSome ∨ (find? m.endLine (content.drop (e + 1))).isSome then
      .error .duplicated
    else .ok (some (b, blockEnd content (e + m.endLine.length)))

def endsLine (content : Bytes) : Bool := [lf].isSuffixOf content || [cr].isSuffixOf content

def endsBlankLine (content : Bytes) : Bool :=
  [lf, lf].isSuffixOf content || [cr, lf, cr, lf].isSuffixOf content

def separator (content : Bytes) : Bytes :=
  if !endsLine content then [lf, lf] else if endsBlankLine content then [] else [lf]

def appendTextBlock (content : Option Bytes) (block : Bytes) : Bytes :=
  match content with
  | none | some [] => block
  | some content => content ++ separator content ++ block

def trailingBreak (content : Bytes) : ℕ :=
  if [cr, lf].isSuffixOf content then 2 else if endsLine content then 1 else 0

def removeTextBlock (content : Bytes) (bounds : ℕ × ℕ) : Bytes :=
  content.take (bounds.1 - trailingBreak (content.take bounds.1)) ++ content.drop bounds.2

def Unmarked (content : Bytes) (m : Marker) : Prop := ¬ m.beginLine <:+: content ∧ ¬ m.endLine <:+: content

theorem markerBounds_eq_none {content : Bytes} {m : Marker} :
    markerBounds content m = .ok none ↔ Unmarked content m := by
  rw [Unmarked, ← find?_eq_none, ← find?_eq_none, markerBounds]
  cases hb : find? m.beginLine content with
  | none => cases he : find? m.endLine content <;> simp
  | some b =>
    cases he : find? m.endLine content with
    | none => simp
    | some e =>
      simp only [reduceCtorEq, and_false, iff_false]
      split_ifs <;> simp

theorem Marker.lf_notMem_beginLine (m : Marker) : lf ∉ m.beginLine := by
  have h := m.oneLine
  simp only [lf] at h
  simp [Marker.beginLine, lf, h]

theorem Marker.lf_notMem_endLine (m : Marker) : lf ∉ m.endLine := by
  have h := m.oneLine
  simp only [lf] at h
  simp [Marker.endLine, lf, h]

def EndsAtLine (u : Bytes) : Prop := ∀ a ∈ u.getLast?, a = lf

theorem EndsAtLine.barrier {u pattern : Bytes} (h : EndsAtLine u) (hp : lf ∉ pattern) : Barrier pattern u := by
  intro a ha hmem
  exact hp (h a ha ▸ hmem)

theorem blockEnd_append (u v : Bytes) (i : ℕ) : blockEnd (u ++ v) (i + u.length) = blockEnd v i + u.length := by
  have hdrop : (u ++ v).drop (i + u.length) = v.drop i := by
    rw [Nat.add_comm, ← List.drop_drop, List.drop_left]
  unfold blockEnd
  rw [hdrop]
  split_ifs <;> omega

def shift (n : ℕ) (bounds : ℕ × ℕ) : ℕ × ℕ := (bounds.1 + n, bounds.2 + n)

theorem markerBounds_append {u v : Bytes} {m : Marker} (hub : Clear m.beginLine u v) (hue : Clear m.endLine u v) :
    markerBounds (u ++ v) m = (markerBounds v m).map (Option.map (shift u.length)) := by
  have hbegin := find?_append hub
  have hend := find?_append hue
  have hdrop (i : ℕ) : (u ++ v).drop (i + u.length + 1) = v.drop (i + 1) := by
    rw [Nat.add_right_comm, Nat.add_comm, ← List.drop_drop, List.drop_left]
  unfold markerBounds
  rw [hbegin, hend]
  cases find? m.beginLine v with
  | none => cases find? m.endLine v <;> rfl
  | some b =>
    cases find? m.endLine v with
    | none => rfl
    | some e =>
      have hlt : e + u.length < b + u.length ↔ e < b := by omega
      have hblock : e + u.length + m.endLine.length = e + m.endLine.length + u.length := by omega
      simp only [Option.map_some, hlt, hdrop, hblock, blockEnd_append]
      split_ifs <;> rfl

def renderBlock (m : Marker) (body : Bytes) : Bytes :=
  m.beginLine ++ lf :: (body ++ lf :: (m.endLine ++ [lf]))

def Sole (block : Bytes) (m : Marker) : Prop := markerBounds block m = .ok (some (0, block.length))

theorem markerBounds_renderBlock (m : Marker) (body : Bytes) :
    Sole (renderBlock m body) m ∨ markerBounds (renderBlock m body) m = .error .duplicated := by
  let last := m.beginLine.length + 1 + body.length + 1
  have hdrop : (renderBlock m body).drop last = m.endLine ++ [lf] := by
    have hsplit : renderBlock m body = (m.beginLine ++ lf :: (body ++ [lf])) ++ (m.endLine ++ [lf]) := by
      simp [renderBlock]
    rw [hsplit, List.drop_left']
    simp [last]
    omega
  have hbegin : find? m.beginLine (renderBlock m body) = some 0 := by
    have hinit : m.beginLine <+: renderBlock m body := List.prefix_append _ _
    cases hr : renderBlock m body with
    | nil => simp [renderBlock] at hr
    | cons a s => rw [find?, if_pos (hr ▸ hinit)]
  have hendInfix : m.endLine <:+: renderBlock m body := by
    refine List.IsInfix.trans ?_ (List.drop_suffix last (renderBlock m body)).isInfix
    rw [hdrop]
    exact (List.prefix_append _ _).isInfix
  obtain ⟨e, he⟩ := Option.ne_none_iff_exists'.mp fun h => find?_eq_none.mp h hendInfix
  have hle : e ≤ last := find?_le he (by rw [hdrop]; exact List.prefix_append _ _)
  rw [Sole, markerBounds, hbegin, he]
  simp only [Nat.not_lt_zero, ↓reduceIte]
  split_ifs with hdup
  · exact Or.inr rfl
  · left
    have hlast : e = last := by
      by_contra hne
      apply hdup
      right
      rw [Option.isSome_iff_ne_none, ne_eq, find?_eq_none, not_not]
      have hle' : e + 1 ≤ last := Nat.succ_le_of_lt (Nat.lt_of_le_of_ne hle hne)
      obtain ⟨k, hk⟩ := Nat.exists_eq_add_of_le hle'
      refine List.IsInfix.trans ?_ (List.drop_suffix k ((renderBlock m body).drop (e + 1))).isInfix
      rw [List.drop_drop, ← hk, hdrop]
      exact (List.prefix_append _ _).isInfix
    have hrest : (renderBlock m body).drop (last + m.endLine.length) = [lf] := by
      rw [← List.drop_drop, hdrop, List.drop_left]
    have hlength : (renderBlock m body).length = last + m.endLine.length + 1 := by
      simp [renderBlock, last]
      omega
    rw [hlast, blockEnd, hrest, hlength]
    simp [lf, cr]

/-- The text in front of a block that is put behind `content`. -/
def lead (content : Option Bytes) : Bytes :=
  match content with
  | none | some [] => []
  | some content => content ++ separator content

theorem appendTextBlock_eq (content : Option Bytes) (block : Bytes) :
    appendTextBlock content block = lead content ++ block := by
  unfold appendTextBlock lead
  split <;> simp

theorem isSuffixOf_singleton {a : UInt8} {s : Bytes} :
    [a].isSuffixOf s = true ↔ s.getLast? = some a := by
  rw [List.isSuffixOf_iff_suffix]
  constructor
  · rintro ⟨u, rfl⟩
    simp
  · intro h
    obtain ⟨u, rfl⟩ := List.getLast?_eq_some_iff.mp h
    exact List.suffix_append _ _

theorem separator_ne_nil {content : Bytes} (h : separator content ≠ []) :
    (separator content).getLast? = some lf := by
  unfold separator at h ⊢
  split_ifs at h ⊢ <;> simp_all

theorem endsBlankLine_getLast {content : Bytes} (h : endsBlankLine content = true) :
    content.getLast? = some lf := by
  rw [endsBlankLine, Bool.or_eq_true, List.isSuffixOf_iff_suffix, List.isSuffixOf_iff_suffix] at h
  rcases h with ⟨u, rfl⟩ | ⟨u, rfl⟩ <;> simp

theorem lead_endsAtLine (content : Option Bytes) : EndsAtLine (lead content) := by
  intro a ha
  unfold lead at ha
  split at ha
  · cases ha
  · cases ha
  · rename_i content hne
    by_cases hsep : separator content = []
    · have hblank : endsBlankLine content = true := by
        unfold separator at hsep
        split_ifs at hsep with _ hblank
        exact hblank
      rw [hsep, List.append_nil, endsBlankLine_getLast hblank] at ha
      exact (Option.some.inj ha).symm
    · rw [List.getLast?_append_of_ne_nil _ hsep, separator_ne_nil hsep] at ha
      exact (Option.some.inj ha).symm

theorem infix_of_infix_append {pattern u w : Bytes} (hne : pattern ≠ []) (hw : ∀ b ∈ w, b ∉ pattern)
    (h : pattern <:+: u ++ w) : pattern <:+: u := by
  induction w using List.reverseRecOn with
  | nil => simpa using h
  | append_singleton w b ih =>
    rw [← List.append_assoc, List.infix_concat_iff] at h
    rcases h with hsuffix | hinfix
    · rcases List.suffix_concat_iff.mp hsuffix with hnil | ⟨t, rfl, -⟩
      · exact absurd hnil hne
      · exact absurd (by simp) (hw b (by simp))
    · exact ih (fun c hc => hw c (List.mem_append_left _ hc)) hinfix

theorem mem_separator {content : Bytes} {b : UInt8} (h : b ∈ separator content) : b = lf := by
  unfold separator at h
  split_ifs at h <;> simp_all

theorem Marker.beginLine_ne_nil (m : Marker) : m.beginLine ≠ [] := by
  simp [Marker.beginLine]

theorem Marker.endLine_ne_nil (m : Marker) : m.endLine ≠ [] := by
  simp [Marker.endLine]

theorem Unmarked.nil (m : Marker) : Unmarked [] m := by
  simp [Unmarked, m.beginLine_ne_nil, m.endLine_ne_nil]

theorem Unmarked.lead {content : Option Bytes} {m : Marker} (h : Unmarked (content.getD []) m) :
    Unmarked (lead content) m := by
  unfold Installer.lead
  split
  · exact .nil m
  · exact .nil m
  · rename_i content hne
    have hsep (pattern : Bytes) (hp : lf ∉ pattern) : ∀ b ∈ separator content, b ∉ pattern :=
      fun b hb => mem_separator hb ▸ hp
    exact ⟨fun hin => h.1 (infix_of_infix_append m.beginLine_ne_nil (hsep _ m.lf_notMem_beginLine) hin),
      fun hin => h.2 (infix_of_infix_append m.endLine_ne_nil (hsep _ m.lf_notMem_endLine) hin)⟩

theorem markerBounds_appendTextBlock {content : Option Bytes} {m : Marker} (block : Bytes)
    (h : Unmarked (content.getD []) m) :
    markerBounds (appendTextBlock content block) m =
      (markerBounds block m).map (Option.map (shift (lead content).length)) := by
  have hline := lead_endsAtLine content
  rw [appendTextBlock_eq, markerBounds_append ((hline.barrier m.lf_notMem_beginLine).clear h.lead.1 block)
    ((hline.barrier m.lf_notMem_endLine).clear h.lead.2 block)]

theorem EndsAtLine.drop {u : Bytes} (h : EndsAtLine u) (n : ℕ) : EndsAtLine (u.drop n) := by
  intro a ha
  rw [List.getLast?_drop] at ha
  split at ha
  · cases ha
  · exact h a ha

theorem blockEnd_append_left {u : Bytes} (h : EndsAtLine u) {i : ℕ} (hi : i < u.length) (v : Bytes) :
    blockEnd (u ++ v) i = blockEnd u i := by
  have hrest := h.drop i
  unfold blockEnd
  rw [List.drop_append_of_le_length (Nat.le_of_lt hi)]
  cases hu : u.drop i with
  | nil =>
    rw [List.drop_eq_nil_iff] at hu
    omega
  | cons a s =>
    rw [hu] at hrest
    cases s with
    | nil =>
      obtain rfl : a = lf := hrest a rfl
      simp [lf, cr]
    | cons b s => simp

theorem markerBounds_append_left {u v : Bytes} {m : Marker} (hline : EndsAtLine u) (hv : Unmarked v m) :
    markerBounds (u ++ v) m = markerBounds u m := by
  have hbegin := hline.barrier m.lf_notMem_beginLine
  have hend := hline.barrier m.lf_notMem_endLine
  unfold markerBounds
  rw [find?_append_left m.beginLine_ne_nil hbegin hv.1, find?_append_left m.endLine_ne_nil hend hv.2]
  cases hb : find? m.beginLine u with
  | none => cases find? m.endLine u <;> rfl
  | some b =>
    cases he : find? m.endLine u with
    | none => rfl
    | some e =>
      have hlength {pattern : Bytes} {i : ℕ} (hi : find? pattern u = some i) (hne : pattern ≠ [])
          (hlf : lf ∉ pattern) : i + pattern.length < u.length := by
        have hp := prefix_drop_of_find? hi
        obtain ⟨rest, hrest⟩ := hp
        have hlast := hline.drop i
        rw [← hrest] at hlast
        have hu := congrArg List.length hrest
        rw [List.length_append, List.length_drop] at hu
        cases rest with
        | nil =>
          rw [List.append_nil] at hlast
          exact absurd (hlast _ (List.getLast?_eq_some_getLast hne) ▸ List.getLast_mem hne) hlf
        | cons c rest =>
          rw [List.length_cons] at hu
          omega
      have hlb := hlength hb m.beginLine_ne_nil m.lf_notMem_beginLine
      have hle := hlength he m.endLine_ne_nil m.lf_notMem_endLine
      simp only
      rw [List.drop_append_of_le_length (by omega), List.drop_append_of_le_length (by omega),
        find?_append_left m.beginLine_ne_nil (hbegin.drop _) hv.1,
        find?_append_left m.endLine_ne_nil (hend.drop _) hv.2, blockEnd_append_left hline hle]

theorem renderBlock_endsAtLine (m : Marker) (body : Bytes) : EndsAtLine (renderBlock m body) := by
  intro a ha
  have hlast : (renderBlock m body).getLast? = some lf := by
    simp [renderBlock, List.getLast?_append, List.getLast?_cons]
  rw [hlast] at ha
  exact (Option.some.inj ha).symm

theorem le_blockEnd (content : Bytes) (i : ℕ) : i ≤ blockEnd content i := by
  unfold blockEnd
  split_ifs <;> omega

theorem markerBounds_eq_some {raw : Bytes} {m : Marker} {start stop : ℕ}
    (h : markerBounds raw m = .ok (some (start, stop))) :
    ∃ e, find? m.beginLine raw = some start ∧ find? m.endLine raw = some e ∧ start ≤ e ∧
      stop = blockEnd raw (e + m.endLine.length) ∧ ¬ m.beginLine <:+: raw.drop (start + 1) ∧
      ¬ m.endLine <:+: raw.drop (e + 1) := by
  unfold markerBounds at h
  cases hb : find? m.beginLine raw with
  | none => cases he : find? m.endLine raw <;> simp [hb, he] at h
  | some b =>
    cases he : find? m.endLine raw with
    | none => simp [hb, he] at h
    | some e =>
      simp only [hb, he] at h
      split_ifs at h with hlt hdup
      simp only [Except.ok.injEq, Option.some.injEq, Prod.mk.injEq] at h
      obtain ⟨rfl, rfl⟩ := h
      obtain ⟨hdupb, hdupe⟩ := not_or.mp hdup
      rw [Bool.not_eq_true, Option.isSome_eq_false_iff, Option.isNone_iff_eq_none, find?_eq_none] at hdupb hdupe
      exact ⟨e, rfl, rfl, Nat.not_lt.mp hlt, rfl, hdupb, hdupe⟩

theorem markerBounds_le {raw : Bytes} {m : Marker} {start stop : ℕ}
    (h : markerBounds raw m = .ok (some (start, stop))) : start ≤ stop := by
  obtain ⟨e, -, -, hle, rfl, -⟩ := markerBounds_eq_some h
  have hstop := le_blockEnd raw (e + m.endLine.length)
  omega

theorem markerBounds_replace {raw : Bytes} {m : Marker} {start stop : ℕ}
    (h : markerBounds raw m = .ok (some (start, stop))) (body : Bytes) :
    start ≤ raw.length ∧ markerBounds (raw.take start ++ renderBlock m body ++ raw.drop stop) m =
      (markerBounds (renderBlock m body) m).map (Option.map (shift start)) := by
  obtain ⟨e, hb, he, hlt, rfl, hdupb, hdupe⟩ := markerBounds_eq_some h
  obtain ⟨rest, hrest⟩ := prefix_drop_of_find? hb
  have hbound : start ≤ raw.length := by
    by_contra hnot
    rw [List.drop_eq_nil_of_le (by omega)] at hrest
    exact m.beginLine_ne_nil (List.append_eq_nil_iff.mp hrest).1
  have hlength : (raw.take start).length = start := List.length_take_of_le hbound
  -- in front of the block the bytes are the same up to the end of its first marker
  have hraw : raw.take start ++ (m.beginLine ++ rest) = raw := by rw [hrest, List.take_append_drop]
  have hclearb : Clear m.beginLine (raw.take start) (m.beginLine ++ rest) :=
    clear_of_find? (hraw.symm ▸ hb) (by omega)
  have hcleare : Clear m.endLine (raw.take start) (m.beginLine ++ rest) :=
    clear_of_find? (hraw.symm ▸ he) (by omega)
  have hsame : m.endLine.length ≤ m.beginLine.length := by simp [Marker.beginLine, Marker.endLine]
  -- behind it no marker is left
  have hstop := le_blockEnd raw (e + m.endLine.length)
  have hpos : 0 < m.endLine.length := List.length_pos_iff.mpr m.endLine_ne_nil
  have hsuffix {n : ℕ} (hn : n ≤ blockEnd raw (e + m.endLine.length)) :
      raw.drop (blockEnd raw (e + m.endLine.length)) <:+: raw.drop n := by
    obtain ⟨k, hk⟩ := Nat.exists_eq_add_of_le hn
    rw [hk, ← List.drop_drop]
    exact (List.drop_suffix _ _).isInfix
  have hunmarked : Unmarked (raw.drop (blockEnd raw (e + m.endLine.length))) m :=
    ⟨fun hin => hdupb (hin.trans (hsuffix (by omega))), fun hin => hdupe (hin.trans (hsuffix (by omega)))⟩
  refine ⟨hbound, ?_⟩
  have hblock : renderBlock m body ++ raw.drop (blockEnd raw (e + m.endLine.length)) =
      m.beginLine ++ (lf :: (body ++ lf :: (m.endLine ++ [lf])) ++
        raw.drop (blockEnd raw (e + m.endLine.length))) := by
    simp [renderBlock]
  rw [List.append_assoc, markerBounds_append (hblock ▸ hclearb.congr (Nat.le_refl _))
    (hblock ▸ hcleare.congr hsame), markerBounds_append_left (renderBlock_endsAtLine m body) hunmarked, hlength]

theorem removeTextBlock_appendTextBlock (content : Option Bytes) (block : Bytes) :
    removeTextBlock (appendTextBlock content block)
        ((lead content).length, (appendTextBlock content block).length) =
      (lead content).take ((lead content).length - trailingBreak (lead content)) := by
  rw [appendTextBlock_eq, removeTextBlock, List.take_left, List.drop_length, List.append_nil,
    List.take_append_of_le_length (Nat.sub_le _ _)]

def EndsOneLine (content : Bytes) : Prop := [lf].isSuffixOf content = true ∧ endsBlankLine content = false

instance (content : Bytes) : Decidable (EndsOneLine content) := inferInstanceAs (Decidable (_ ∧ _))

theorem trailingBreak_le (content : Bytes) : trailingBreak content ≤ content.length := by
  unfold trailingBreak endsLine
  split_ifs with h₂ h₁
  · exact (List.isSuffixOf_iff_suffix.mp h₂).length_le
  · rw [Bool.or_eq_true, List.isSuffixOf_iff_suffix, List.isSuffixOf_iff_suffix] at h₁
    rcases h₁ with h₁ | h₁ <;> exact h₁.length_le
  · exact Nat.zero_le _

theorem trailingBreak_pos {content : Bytes} (h : endsLine content = true) : 0 < trailingBreak content := by
  unfold trailingBreak
  split_ifs <;> omega

theorem trailingBreak_concat_lf {content : Bytes} (h : [cr].isSuffixOf content = false) :
    trailingBreak (content ++ [lf]) = 1 := by
  have hpair : [cr, lf].isSuffixOf (content ++ [lf]) = false := by
    apply Bool.eq_false_iff.mpr
    intro hpair
    obtain ⟨u, hu⟩ := List.isSuffixOf_iff_suffix.mp hpair
    have hsplit : (u ++ [cr]) ++ [lf] = content ++ [lf] := by simpa using hu
    have hcontent := List.append_cancel_right hsplit
    rw [← hcontent] at h
    rw [Bool.eq_false_iff] at h
    exact h (List.isSuffixOf_iff_suffix.mpr (List.suffix_append _ _))
  have hline : endsLine (content ++ [lf]) = true := by
    rw [endsLine, Bool.or_eq_true]
    exact Or.inl (List.isSuffixOf_iff_suffix.mpr (List.suffix_append _ _))
  simp [trailingBreak, hpair, hline]

theorem isSuffixOf_cr_of_lf {content : Bytes} (h : [lf].isSuffixOf content = true) :
    [cr].isSuffixOf content = false := by
  rw [isSuffixOf_singleton] at h
  apply Bool.eq_false_iff.mpr
  rw [ne_eq, isSuffixOf_singleton, h]
  decide

theorem trailingBreak_separator_iff (content : Bytes) :
    trailingBreak (content ++ separator content) = (separator content).length ↔ EndsOneLine content := by
  by_cases hline : endsLine content = true
  · by_cases hblank : endsBlankLine content = true
    · have hsep : separator content = [] := by simp [separator, hline, hblank]
      have hpos := trailingBreak_pos hline
      rw [hsep, List.append_nil, List.length_nil, EndsOneLine, hblank]
      simp only [Bool.true_eq_false, and_false, iff_false]
      omega
    · rw [Bool.not_eq_true] at hblank
      have hsep : separator content = [lf] := by simp [separator, hline, hblank]
      rw [hsep, List.length_singleton, EndsOneLine, hblank]
      by_cases hlf : [lf].isSuffixOf content = true
      · simp [trailingBreak_concat_lf (isSuffixOf_cr_of_lf hlf), hlf]
      · have hcr : [cr].isSuffixOf content = true := by
          rw [endsLine, Bool.or_eq_true] at hline
          exact hline.resolve_left hlf
        obtain ⟨u, rfl⟩ := List.isSuffixOf_iff_suffix.mp hcr
        simp [trailingBreak, hlf]
  · have hsep : separator content = [lf, lf] := by simp [separator, hline]
    have hlf : ¬ [lf].isSuffixOf content = true := by
      intro hlf
      exact hline (by rw [endsLine, hlf, Bool.true_or])
    have hsplit : content ++ [lf, lf] = (content ++ [lf]) ++ [lf] := by simp
    have hcr : [cr].isSuffixOf (content ++ [lf]) = false :=
      isSuffixOf_cr_of_lf (List.isSuffixOf_iff_suffix.mpr (List.suffix_append _ _))
    rw [hsep, hsplit, trailingBreak_concat_lf hcr]
    simp [EndsOneLine, hlf]

theorem take_lead_eq_iff {content : Bytes} (hne : content ≠ []) :
    (lead (some content)).take ((lead (some content)).length - trailingBreak (lead (some content))) = content ↔
      EndsOneLine content := by
  have hlead : lead (some content) = content ++ separator content := by
    unfold lead
    split <;> simp_all
  have hlen := trailingBreak_le (content ++ separator content)
  rw [hlead, ← trailingBreak_separator_iff]
  constructor
  · intro h
    have hlength := congrArg List.length h
    simp only [List.length_take, List.length_append] at hlength hlen
    omega
  · intro h
    rw [h, List.length_append, Nat.add_sub_cancel, List.take_left]

end Installer

end GraphSkillRuntime
