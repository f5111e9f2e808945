import GraphSkillRuntime.InstallerUpgrade

/-! What an install or an uninstall of one resource leaves of the file that it shares with its user. -/

namespace GraphSkillRuntime.Installer

open OrderedDict JsonText

section Selectors

variable {F : Type} {doc doc' : Document F} {selector q : List String}

def Apart (selector q : List String) : Prop := ¬ selector <+: q ∧ ¬ q <+: selector

theorem Apart.cons {k : String} (h : Apart (k :: selector) (k :: q)) : Apart selector q := by
  simpa [Apart] using h

theorem lookupJson_congr_head {k : String} (h : Dict.find doc' k = Dict.find doc k) (ks : List String) :
    lookupJson doc' (k :: ks) = lookupJson doc (k :: ks) := by
  simp only [lookupJson, descend, h]

theorem lookupJson_of_object {k : String} {sub : Document F} (h : Dict.find doc k = some (.dict sub))
    (ks : List String) (hne : ks ≠ []) : lookupJson doc (k :: ks) = lookupJson sub ks := by
  cases ks with
  | nil => exact absurd rfl hne
  | cons j ks => rw [lookupJson_cons, h]

theorem lookupJson_of_missing {k : String} (h : parentAt doc k = .missing) (ks : List String) (hne : ks ≠ []) :
    lookupJson doc (k :: ks) = lookupJson ([] : Document F) ks := by
  cases ks with
  | nil => exact absurd rfl hne
  | cons j ks =>
    rw [lookupJson_cons, lookupJson_nil]
    rw [parentAt] at h
    split at h <;> simp_all

theorem lookupJson_setJson_apart {v : Json F} (hset : setJson selector v doc = .ok doc')
    (h : Apart selector q) : lookupJson doc' q = lookupJson doc q := by
  induction selector generalizing doc doc' q with
  | nil => cases hset
  | cons k ks ih =>
    cases q with
    | nil => exact absurd (List.nil_prefix) h.2
    | cons i is =>
      have head {w : Json F} (hk : k ≠ i) : lookupJson (setKey doc k w) (i :: is) = lookupJson doc (i :: is) :=
        lookupJson_congr_head (by rw [find_setKey, if_neg hk]) is
      have below {sub : Document F} (hk : k = i) (hsub : lookupJson sub is = lookupJson doc (i :: is)) :
          lookupJson (setKey doc k (.dict sub)) (i :: is) = lookupJson doc (i :: is) := by
        subst hk
        rw [lookupJson_of_object (by rw [find_setKey, if_pos rfl]) is, hsub]
        rintro rfl
        exact h.2 (by simp)
      cases ks with
      | nil =>
        cases hset
        by_cases hk : k = i
        · subst hk
          exact absurd (by simp) h.1
        · exact head hk
      | cons j ks =>
        rw [setJson] at hset
        cases hparent : parentAt doc k with
        | missing =>
          rw [hparent] at hset
          obtain ⟨sub, hsub, rfl⟩ := map_eq_ok hset
          by_cases hk : k = i
          · subst hk
            have hne : is ≠ [] := by
              rintro rfl
              exact h.2 (by simp)
            refine below rfl ?_
            rw [lookupJson_of_missing hparent is hne, ih hsub h.cons]
          · exact head hk
        | object sub =>
          rw [hparent] at hset
          obtain ⟨sub', hsub', rfl⟩ := map_eq_ok hset
          by_cases hk : k = i
          · subst hk
            have hne : is ≠ [] := by
              rintro rfl
              exact h.2 (by simp)
            refine below rfl ?_
            rw [lookupJson_of_object (find_of_parentAt hparent) is hne, ih hsub' h.cons]
          · exact head hk
        | other =>
          rw [hparent] at hset
          cases hset

theorem lookupJson_removeJson_apart (hremove : removeJson selector doc = .ok doc') (h : Apart selector q) :
    lookupJson doc' q = lookupJson doc q := by
  induction selector generalizing doc doc' q with
  | nil => cases hremove
  | cons k ks ih =>
    cases q with
    | nil => exact absurd (List.nil_prefix) h.2
    | cons i is =>
      cases ks with
      | nil =>
        cases hremove
        have hk : k ≠ i := by
          rintro rfl
          exact h.1 (by simp)
        exact lookupJson_congr_head (find_dropKey hk) is
      | cons j ks =>
        rw [removeJson] at hremove
        split at hremove
        · next sub hfind =>
          obtain ⟨sub', hsub', rfl⟩ := map_eq_ok hremove
          by_cases hk : k = i
          · subst hk
            have hne : is ≠ [] := by
              rintro rfl
              exact h.2 (by simp)
            rw [lookupJson_of_object (by rw [find_setKey, if_pos rfl]) is hne, lookupJson_of_object hfind is hne,
              ih hsub' h.cons]
          · exact lookupJson_congr_head (by rw [find_setKey, if_neg hk]) is
        · cases hremove
          rfl

theorem lookupJson_pruneParent {p : List String} (hdistinct : (Json.dict doc).Distinct) (h : ¬ q <+: p) :
    lookupJson (pruneParent p doc) q = lookupJson doc q := by
  induction p generalizing doc q with
  | nil => rfl
  | cons k ps ih =>
    cases q with
    | nil => exact absurd (List.nil_prefix) h
    | cons i is =>
      have hne (hk : k = i) : is ≠ [] := by
        rintro rfl
        exact h (by simp [hk])
      cases ps with
      | nil =>
        rw [pruneParent]
        split
        · next hfind =>
          by_cases hk : k = i
          · subst hk
            rw [lookupJson_of_object hfind is (hne rfl)]
            cases is with
            | nil => exact absurd rfl (hne rfl)
            | cons i is => simp [lookupJson_cons, lookupJson_nil, find_dropKey_self hdistinct.1]
          · exact lookupJson_congr_head (find_dropKey hk) is
        · rfl
      | cons j ps =>
        rw [pruneParent]
        split
        · next sub hfind =>
          by_cases hk : k = i
          · subst hk
            rw [lookupJson_of_object (by rw [find_setKey, if_pos rfl]) is (hne rfl),
              lookupJson_of_object hfind is (hne rfl)]
            exact ih (distinct_of_find hdistinct hfind) (by simpa using h)
          · exact lookupJson_congr_head (by rw [find_setKey, if_neg hk]) is
        · rfl

theorem lookupJson_pruneCreatedJsonParents {created : List (List String)} (hdistinct : (Json.dict doc).Distinct)
    (h : ∀ p ∈ created, ¬ q <+: p) : lookupJson (pruneCreatedJsonParents created doc) q = lookupJson doc q := by
  rw [pruneCreatedJsonParents]
  replace h : ∀ p ∈ created.insertionSort (fun a b => b.length ≤ a.length), ¬ q <+: p := by simpa using h
  revert h
  generalize created.insertionSort (fun a b => b.length ≤ a.length) = parents
  intro h
  induction parents generalizing doc with
  | nil => rfl
  | cons p parents ih =>
    rw [List.foldl_cons, ih (distinct_pruneParent p hdistinct) fun p' hp' => h p' (List.mem_cons_of_mem p hp')]
    exact lookupJson_pruneParent hdistinct (h p List.mem_cons_self)

theorem missingJsonParents_prefix {created : List (List String)} (h : missingJsonParents selector doc = .ok created)
    {p : List String} (hp : p ∈ created) : p <+: selector := by
  fun_induction missingJsonParents selector doc generalizing created p with
  | case1 | case2 =>
    cases h
    cases hp
  | case3 k j ks doc hparent ih =>
    obtain ⟨ps, hps, rfl⟩ := map_eq_ok h
    rcases List.mem_cons.mp hp with rfl | hp
    · simp
    · obtain ⟨q, hq, rfl⟩ := List.mem_map.mp hp
      simpa using ih hps hq
  | case4 k j ks doc sub hparent ih =>
    obtain ⟨ps, hps, rfl⟩ := map_eq_ok h
    obtain ⟨q, hq, rfl⟩ := List.mem_map.mp hp
    simpa using ih hps hq
  | case5 => cases h

end Selectors

section Blocks

theorem blockEnd_le {content : Bytes} {i : ℕ} (h : i ≤ content.length) : blockEnd content i ≤ content.length := by
  have hdrop : (content.drop i).length = content.length - i := List.length_drop
  unfold blockEnd
  split_ifs with h2 h1
  · have := h2.length_le
    simp at this
    omega
  · rcases h1 with h1 | h1 <;>
    · have := h1.length_le
      simp at this
      omega
  · exact h

theorem split_at_block {raw : Bytes} {marker : Marker} {start stop : ℕ}
    (h : markerBounds raw marker = .ok (some (start, stop))) :
    ∃ u old v, raw = u ++ old ++ v ∧ start = u.length ∧ stop = (u ++ old).length := by
  have hle := markerBounds_le h
  obtain ⟨e, -, he, -, hstop, -⟩ := markerBounds_eq_some h
  have hend : e + marker.endLine.length ≤ raw.length := by
    have hfits := (prefix_drop_of_find? he).length_le
    have hpos := List.length_pos_of_ne_nil marker.endLine_ne_nil
    rw [List.length_drop] at hfits
    omega
  have hlen : stop ≤ raw.length := hstop ▸ blockEnd_le hend
  have htake : raw.take start = (raw.take stop).take start := by rw [List.take_take, min_eq_left hle]
  refine ⟨raw.take start, (raw.take stop).drop start, raw.drop stop, ?_, ?_, ?_⟩
  · rw [htake, List.take_append_drop, List.take_append_drop]
  · rw [List.length_take]
    omega
  · rw [htake, List.take_append_drop, List.length_take]
    omega

theorem slice_middle (u old v : Bytes) : ((u ++ old ++ v).take (u ++ old).length).drop u.length = old := by
  rw [List.take_left, List.drop_left]

theorem replace_middle (u old new v : Bytes) :
    (u ++ old ++ v).take u.length ++ new ++ (u ++ old ++ v).drop (u ++ old).length = u ++ new ++ v := by
  rw [List.drop_left, List.append_assoc u old v, List.take_left]

end Blocks

section Frame

variable {F : Type} {host : Installation F} {files files' : Files} {m : Mutation} {owned : Option ManifestEntry}
  {target : IntegrationTarget}

def valueAt (host : Installation F) (text : Option Bytes) (q : List String) : Option (Json F) := do
  lookupJson (← host.loads (← text)) q

/-- The text around the block of a marker stays: a block is put behind a separator, in the place of a block, or it is
taken out with the line ending in front of it, and with the file where nothing but blanks is left. -/
inductive AroundBlock (marker : Marker) : Option Bytes → Option Bytes → Prop
  | appended {before : Option Bytes} {gap block : Bytes} (hnone : Unmarked (before.getD []) marker)
      (hgap : ∀ b ∈ gap, b = lf) : AroundBlock marker before (some (before.getD [] ++ gap ++ block))
  | replaced {u old new v : Bytes}
      (hold : markerBounds (u ++ old ++ v) marker = .ok (some (u.length, (u ++ old).length))) :
      AroundBlock marker (some (u ++ old ++ v)) (some (u ++ new ++ v))
  | removed {u ending old v : Bytes} (hending : ending = [] ∨ ending = [lf] ∨ ending = [cr] ∨ ending = [cr, lf])
      (hold : markerBounds (u ++ ending ++ old ++ v) marker =
        .ok (some ((u ++ ending).length, (u ++ ending ++ old).length))) {after : Option Bytes}
      (hafter : after = some (u ++ v) ∨ after = none ∧ isBlank (u ++ v) = true) :
      AroundBlock marker (some (u ++ ending ++ old ++ v)) after

def Leaves (host : Installation F) (parents : List (List String)) : Resource F → Option Bytes → Option Bytes → Prop
  | .file _ _ _, _, _ => True
  | .jsonEntry _ _ selector _, before, after =>
    ∀ q, Apart selector q → (∀ p ∈ parents, ¬ q <+: p) → valueAt host after q = valueAt host before q
  | .textBlock _ _ marker _, before, after => after = before ∨ AroundBlock marker before after

theorem Leaves.refl {parents : List (List String)} (r : Resource F) (content : Option Bytes) :
    Leaves host parents r content content := by
  cases r with
  | file => trivial
  | jsonEntry => exact fun _ _ _ => rfl
  | textBlock => exact .inl rfl

theorem Leaves.of_onTheWay {parents : List (List String)} {r : Resource F} {before after : Option Bytes}
    (h : Leaves host parents r before after)
    (hparents : ∀ selector, (resourceIdentity r).2 = .keys selector → ∀ p ∈ parents, p <+: selector) :
    Leaves host [] r before after := by
  cases r with
  | file => trivial
  | jsonEntry id path selector value =>
    intro q hq _
    exact h q hq fun p hp hbelow => hq.2 (hbelow.trans (hparents selector rfl p hp))
  | textBlock => exact h

theorem valueAt_pretty {document : Document F} (h : (Json.dict document).Distinct) (q : List String) :
    valueAt host (some (host.pretty document)) q = lookupJson document q := by
  simp [valueAt, host.loads_pretty document h]

theorem valueAt_of_decode {text : Option Bytes} {document : Document F}
    (h : decodeJsonDocument host text = .ok document) {q : List String} (hne : q ≠ []) :
    valueAt host text q = lookupJson document q := by
  cases text with
  | none =>
    obtain rfl := Except.ok.inj h
    cases q with
    | nil => exact absurd rfl hne
    | cons k ks => rfl
  | some text =>
    rw [decodeJsonDocument_some] at h
    simp [valueAt, h]

theorem Apart.ne_nil {selector q : List String} (h : Apart selector q) : q ≠ [] := by
  rintro rfl
  exact h.2 List.nil_prefix

theorem mem_lead (before : Option Bytes) : ∃ gap, lead before = before.getD [] ++ gap ∧ ∀ b ∈ gap, b = lf := by
  unfold lead
  split
  · exact ⟨[], rfl, by simp⟩
  · exact ⟨[], rfl, by simp⟩
  · next content _ => exact ⟨separator content, rfl, fun b hb => mem_separator hb⟩

theorem planInstallResource_leaves {parents : List (List String)} {r : Resource F} (hr : r.WellFormed)
    (h : planInstallResource host files target r owned = .ok m) : Leaves host parents r (files r.path) m.after := by
  cases r with
  | file id path content => trivial
  | jsonEntry id path selector value =>
    obtain ⟨-, before, document, created, hread, hdecode, -, -, hcase⟩ := planInstallJson_eq_ok.mp h
    obtain rfl := readBounded_eq_ok hread
    intro q hq _
    rcases hcase with ⟨_, -, -, rfl⟩ | ⟨-, document', hset, rfl⟩
    · rfl
    · have hdistinct := distinct_setJson (distinct_of_decode hdecode) hr.2 hset
      rw [installMutation, valueAt_pretty hdistinct, lookupJson_setJson_apart hset hq]
      exact (valueAt_of_decode hdecode hq.ne_nil).symm
  | textBlock id path marker content =>
    obtain ⟨before, bounds, hread, -, hbounds, hcase⟩ := planInstallText_eq_ok.mp h
    obtain rfl := readBounded_eq_ok hread
    refine .inr ?_
    rcases hcase with ⟨rfl, -, rfl⟩ | ⟨start, stop, rfl, -, rfl⟩
    · obtain ⟨gap, hlead, hgap⟩ := mem_lead (files path)
      rw [installMutation, appendTextBlock_eq, hlead]
      exact .appended (markerBounds_eq_none.mp hbounds) hgap
    · obtain ⟨u, old, v, hraw, rfl, rfl⟩ := split_at_block hbounds
      cases hfile : files path with
      | none =>
        rw [hfile, Option.getD_none] at hbounds
        exact absurd (markerBounds_eq_none.mpr (Unmarked.nil marker)) (by rw [hbounds]; simp)
      | some text =>
        rw [hfile, Option.getD_some] at hraw
        subst hraw
        rw [hfile, Option.getD_some] at hbounds
        simp only [installMutation, Resource.path, hfile, Option.getD_some, replace_middle]
        exact .replaced hbounds

theorem exists_ending (u : Bytes) : ∃ w ending, u = w ++ ending ∧ trailingBreak u = ending.length ∧
    (ending = [] ∨ ending = [lf] ∨ ending = [cr] ∨ ending = [cr, lf]) := by
  unfold trailingBreak
  split_ifs with h2 h1
  · obtain ⟨w, rfl⟩ := List.isSuffixOf_iff_suffix.mp h2
    exact ⟨w, [cr, lf], rfl, rfl, by simp⟩
  · rcases (Bool.or_eq_true _ _).mp h1 with h1 | h1
    · obtain ⟨w, rfl⟩ := List.isSuffixOf_iff_suffix.mp h1
      exact ⟨w, [lf], rfl, rfl, by simp⟩
    · obtain ⟨w, rfl⟩ := List.isSuffixOf_iff_suffix.mp h1
      exact ⟨w, [cr], rfl, rfl, by simp⟩
  · exact ⟨u, [], by simp, rfl, by simp⟩

theorem removeTextBlock_middle (u old v : Bytes) : ∃ w ending, u = w ++ ending ∧
    (ending = [] ∨ ending = [lf] ∨ ending = [cr] ∨ ending = [cr, lf]) ∧
    removeTextBlock (u ++ old ++ v) (u.length, (u ++ old).length) = w ++ v := by
  obtain ⟨w, ending, hu, hbreak, hending⟩ := exists_ending u
  refine ⟨w, ending, hu, hending, ?_⟩
  have htake : (u ++ old ++ v).take u.length = u := by rw [List.append_assoc, List.take_left]
  rw [removeTextBlock, htake, List.drop_left, hbreak, hu, List.length_append, Nat.add_sub_cancel, List.append_assoc,
    List.append_assoc, List.take_left]

theorem planUninstallEntry_leaves {entry : ManifestEntry} {r : Resource F} (hmatches : entry.Matches r)
    (h : planUninstallEntry host files entry = .ok m) :
    Leaves host entry.createdJsonParents r (files r.path) m.after := by
  obtain ⟨before, action, after, hread, hstate, rfl⟩ := planUninstallEntry_eq_ok.mp h
  obtain rfl := readBounded_eq_ok hread
  obtain ⟨-, hkind, hpath, hselector⟩ := hmatches
  rw [uninstallState] at hstate
  cases r with
  | file id path content => trivial
  | jsonEntry id path selector value =>
    simp only [hkind, hselector, resourceIdentity] at hstate
    obtain ⟨document, hdecode, hcase⟩ := uninstallJsonState_eq_ok.mp hstate
    rw [← hpath]
    intro q hq hparents
    rcases hcase with ⟨-, -, rfl⟩ | ⟨current, removed, -, -, -, hremove, -, rfl⟩
    · rfl
    · have hdistinct := distinct_removeJson (distinct_of_decode hdecode) hremove
      have hlookup : lookupJson (pruneCreatedJsonParents entry.createdJsonParents removed) q =
          valueAt host (files entry.path) q := by
        rw [lookupJson_pruneCreatedJsonParents hdistinct hparents, lookupJson_removeJson_apart hremove hq,
          valueAt_of_decode hdecode hq.ne_nil]
      rw [uninstallMutation, ← hlookup]
      dsimp only
      split_ifs with hempty
      · rw [hempty.2]
        cases q with
        | nil => exact absurd rfl hq.ne_nil
        | cons k ks => rfl
      · exact valueAt_pretty (distinct_pruneCreatedJsonParents _ hdistinct) q
  | textBlock id path marker content =>
    simp only [hkind, hselector, resourceIdentity] at hstate
    obtain ⟨bounds, hbounds, hcase⟩ := uninstallTextState_eq_ok.mp hstate
    rw [← hpath]
    rcases hcase with ⟨-, -, rfl⟩ | ⟨text, start, stop, htext, rfl, -, -, rfl⟩
    · exact .inl rfl
    · rw [htext, Option.getD_some] at hbounds
      obtain ⟨u, old, v, rfl, rfl, rfl⟩ := split_at_block hbounds
      obtain ⟨w, ending, rfl, hending, hremoved⟩ := removeTextBlock_middle u old v
      rw [htext, uninstallMutation, hremoved]
      refine .inr (.removed hending hbounds ?_)
      dsimp only
      split_ifs with hblank
      · exact .inr ⟨rfl, (Bool.and_eq_true_iff.mp hblank).2⟩
      · exact .inl rfl

end Frame

end GraphSkillRuntime.Installer
