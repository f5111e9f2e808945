import GraphSkillRuntime.OrderedDict
import GraphSkillRuntime.Runs
import Mathlib.Data.List.Induction

/-!
The slices of an answer that is still arriving: each one is reported to the run as it goes by, and all of them are
folded into the one response that the agent loop is given.
-/

namespace GraphSkillRuntime.ProviderStream

open OrderedDict

variable {β ν : Type}

/-- The content of a slice: a text, a list of content blocks, any other value, or `None`. -/
inductive Content (β : Type) where
  | text (s : String)
  | blocks (bs : List (String ⊕ β))
  | other (b : β)
  | missing

structure LLMProviderChunk (β ν : Type) where
  content : Content β := .text ""
  reasoning : String := ""
  metadata : Dict String ν := ∅
  restartsAnswer : Bool := false

inductive Channel where
  | text | thinking
  deriving DecidableEq

/-- What `LlmCallStep.delta` reports. -/
structure Delta where
  text : String
  channel : Channel := .text
  restartsStep : Bool := false
  deriving DecidableEq

def textDelta : Content β → List Delta
  | .text s => if s = "" then [] else [{ text := s }]
  | _ => []

def reportedChunk (chunk : LLMProviderChunk β ν) : List Delta :=
  (if chunk.restartsAnswer then [{ text := "", restartsStep := true }] else []) ++
    ((if chunk.reasoning = "" then [] else [{ text := chunk.reasoning, channel := .thinking }]) ++
      textDelta chunk.content)

def reported (chunks : List (LLMProviderChunk β ν)) : List Delta := chunks.flatMap reportedChunk

structure LLMProviderResponse (β ν : Type) where
  content : Content β
  metadata : Dict String ν
  reasoning : String

/-- The lists that `_assemble` fills. -/
structure Assembly (β ν : Type) where
  parts : List (Content β) := []
  metadata : Dict String ν := ∅
  thoughts : List String := []

def isPart : Content β → Bool
  | .text s => s ≠ ""
  | .missing => false
  | _ => true

def assembleChunk (a : Assembly β ν) (chunk : LLMProviderChunk β ν) : Assembly β ν :=
  let a := if chunk.restartsAnswer then {} else a
  { parts := if isPart chunk.content then a.parts ++ [chunk.content] else a.parts
    thoughts := if chunk.reasoning = "" then a.thoughts else a.thoughts ++ [chunk.reasoning]
    metadata := a.metadata.update chunk.metadata }

def text? : Content β → Option String
  | .text s => some s
  | _ => none

def blocksOf : Content β → List (String ⊕ β)
  | .blocks bs => bs
  | .other b => [.inr b]
  | .text s => [.inl s]
  | .missing => []

def joinParts (parts : List (Content β)) : Content β :=
  match parts.mapM text? with
  | some texts => .text (String.join texts)
  | none => .blocks (parts.flatMap blocksOf)

def assemble (chunks : List (LLMProviderChunk β ν)) : LLMProviderResponse β ν :=
  let a := chunks.foldl assembleChunk {}
  { content := joinParts a.parts, metadata := a.metadata, reasoning := String.join a.thoughts }

/-! The stream as a reader of the run sees it. -/

def sinceRestart (deltas : List Delta) : List Delta :=
  (deltas.reverse.takeWhile fun d => !d.restartsStep).reverse

def streamed (channel : Channel) (deltas : List Delta) : String :=
  String.join (((sinceRestart deltas).filter (·.channel = channel)).map (·.text))

theorem sinceRestart_append {ds es : List Delta} (h : ∀ d ∈ es, d.restartsStep = false) :
    sinceRestart (ds ++ es) = sinceRestart ds ++ es := by
  unfold sinceRestart
  have hes : ∀ d ∈ es.reverse, (!d.restartsStep) = true := by
    intro d hd
    rw [h d (List.mem_reverse.mp hd)]
    rfl
  rw [List.reverse_append, List.takeWhile_append_of_pos hes, List.reverse_append, List.reverse_reverse]

theorem sinceRestart_restart {ds : List Delta} {d : Delta} (h : d.restartsStep = true) :
    sinceRestart (ds ++ [d]) = [] := by
  simp [sinceRestart, h]

/-! The answer that the slices spell, with nothing kept of an abandoned attempt. -/

structure Answer (ν : Type) where
  content : String := ""
  reasoning : String := ""
  metadata : Dict String ν := ∅

def spoken : Content β → String
  | .text s => s
  | _ => ""

def Answer.take (a : Answer ν) (chunk : LLMProviderChunk β ν) : Answer ν :=
  let a := if chunk.restartsAnswer then {} else a
  { content := a.content ++ spoken chunk.content
    reasoning := a.reasoning ++ chunk.reasoning
    metadata := a.metadata.update chunk.metadata }

def answer (chunks : List (LLMProviderChunk β ν)) : Answer ν := chunks.foldl Answer.take {}

theorem answer_concat (chunks : List (LLMProviderChunk β ν)) (chunk : LLMProviderChunk β ν) :
    answer (chunks ++ [chunk]) = (answer chunks).take chunk := by
  rw [answer, List.foldl_append]
  rfl

structure Spells (a : Assembly β ν) (s : Answer ν) : Prop where
  texts : ∃ texts, a.parts = texts.map Content.text ∧ String.join texts = s.content
  thoughts : String.join a.thoughts = s.reasoning
  metadata : a.metadata = s.metadata

theorem Spells.step {a : Assembly β ν} {s : Answer ν} (h : Spells a s) {chunk : LLMProviderChunk β ν} {text : String}
    (hc : chunk.content = .text text) : Spells (assembleChunk a chunk) (s.take chunk) := by
  have hstart : Spells (if chunk.restartsAnswer then {} else a) (if chunk.restartsAnswer then {} else s) := by
    split_ifs
    · exact ⟨⟨[], rfl, rfl⟩, rfl, rfl⟩
    · exact h
  obtain ⟨⟨texts, hparts, hjoin⟩, hthoughts, hmetadata⟩ := hstart
  refine ⟨?_, ?_, ?_⟩
  · simp only [assembleChunk, Answer.take, hc, isPart, spoken, hparts]
    by_cases ht : text = ""
    · exact ⟨texts, by simp [ht], by simp [ht, hjoin]⟩
    · exact ⟨texts ++ [text], by simp [ht], by simp [hjoin]⟩
  · simp only [assembleChunk, Answer.take]
    by_cases hr : chunk.reasoning = ""
    · simp [hr, hthoughts]
    · simp [hr, hthoughts]
  · simp only [assembleChunk, Answer.take, hmetadata]

theorem spells_answer {chunks : List (LLMProviderChunk β ν)} (h : ∀ chunk ∈ chunks, ∃ s, chunk.content = .text s) :
    Spells (chunks.foldl assembleChunk {}) (answer chunks) := by
  induction chunks using List.reverseRecOn with
  | nil => exact ⟨⟨[], rfl, rfl⟩, rfl, rfl⟩
  | append_singleton chunks chunk ih =>
    obtain ⟨text, htext⟩ := h chunk (by simp)
    rw [answer_concat, List.foldl_append]
    exact (ih fun c hc => h c (by simp [hc])).step htext

theorem mapM_text (texts : List String) : (texts.map (Content.text (β := β))).mapM text? = some texts := by
  induction texts with
  | nil => rfl
  | cons s texts ih => simp [text?, ih]

theorem assemble_eq {chunks : List (LLMProviderChunk β ν)} (h : ∀ chunk ∈ chunks, ∃ s, chunk.content = .text s) :
    assemble chunks =
      { content := .text (answer chunks).content, metadata := (answer chunks).metadata,
        reasoning := (answer chunks).reasoning } := by
  obtain ⟨⟨texts, hparts, hjoin⟩, hthoughts, hmetadata⟩ := spells_answer h
  simp only [assemble, joinParts, hparts, mapM_text, hjoin, hthoughts, hmetadata]

/-! What was reported since the last restart spells the same answer. -/

def Answer.on (a : Answer ν) : Channel → String
  | .text => a.content
  | .thinking => a.reasoning

theorem sinceRestart_reportedChunk (ds : List Delta) (chunk : LLMProviderChunk β ν) :
    sinceRestart (ds ++ reportedChunk chunk) =
      (if chunk.restartsAnswer then [] else sinceRestart ds) ++
        ((if chunk.reasoning = "" then [] else [{ text := chunk.reasoning, channel := .thinking }]) ++
          textDelta chunk.content) := by
  have hplain : ∀ d ∈ (if chunk.reasoning = "" then [] else [{ text := chunk.reasoning, channel := .thinking }]) ++
      textDelta chunk.content, d.restartsStep = false := by
    intro d hd
    rcases List.mem_append.mp hd with hd | hd
    · split_ifs at hd with hr
      · cases hd
      · rw [List.mem_singleton.mp hd]
    · unfold textDelta at hd
      split at hd
      · split_ifs at hd with ht
        · cases hd
        · rw [List.mem_singleton.mp hd]
      · cases hd
  rw [reportedChunk, ← List.append_assoc ds, sinceRestart_append hplain]
  congr 1
  split_ifs
  · exact sinceRestart_restart rfl
  · rw [List.append_nil]

theorem streamed_chunk (channel : Channel) (ds : List Delta) (s : Answer ν) {chunk : LLMProviderChunk β ν}
    (h : streamed channel ds = s.on channel) :
    streamed channel (ds ++ reportedChunk chunk) = (s.take chunk).on channel := by
  have hstart : String.join (((if chunk.restartsAnswer then [] else sinceRestart ds).filter
      (·.channel = channel)).map (·.text)) = (if chunk.restartsAnswer then ({} : Answer ν) else s).on channel := by
    split_ifs
    · cases channel <;> rfl
    · exact h
  rw [streamed, sinceRestart_reportedChunk, List.filter_append, List.map_append, String.join_append, hstart]
  cases channel with
  | text =>
    congr 1
    cases chunk.content with
    | text t => by_cases ht : t = "" <;> by_cases hr : chunk.reasoning = "" <;> simp [textDelta, spoken, ht, hr]
    | _ => by_cases hr : chunk.reasoning = "" <;> simp [textDelta, spoken, hr]
  | thinking =>
    congr 1
    cases chunk.content with
    | text t => by_cases ht : t = "" <;> by_cases hr : chunk.reasoning = "" <;> simp [textDelta, ht, hr]
    | _ => by_cases hr : chunk.reasoning = "" <;> simp [textDelta, hr]

theorem streamed_reported (channel : Channel) (chunks : List (LLMProviderChunk β ν)) :
    streamed channel (reported chunks) = (answer chunks).on channel := by
  induction chunks using List.reverseRecOn with
  | nil => cases channel <;> rfl
  | append_singleton chunks chunk ih =>
    rw [answer_concat, reported, List.flatMap_append, List.flatMap_singleton]
    exact streamed_chunk channel _ _ ih

/-- The first piece restarts the answer and the last one carries the metadata. -/
inductive Cut : LLMProviderChunk β ν → List (LLMProviderChunk β ν) → Prop where
  | whole (chunk : LLMProviderChunk β ν) : Cut chunk [chunk]
  | split {text rest reasoning thought : String} {metadata : Dict String ν} {restarts : Bool}
      {pieces : List (LLMProviderChunk β ν)}
      (h : Cut { content := .text rest, reasoning := thought, metadata } pieces) :
      Cut { content := .text (text ++ rest), reasoning := reasoning ++ thought, metadata, restartsAnswer := restarts }
        ({ content := .text text, reasoning, restartsAnswer := restarts } :: pieces)

theorem Answer.take_pieces {chunk : LLMProviderChunk β ν} {pieces : List (LLMProviderChunk β ν)} (h : Cut chunk pieces)
    (a : Answer ν) : pieces.foldl Answer.take a = a.take chunk := by
  induction h generalizing a with
  | whole chunk => rfl
  | split h ih =>
    rw [List.foldl_cons, ih]
    simp [Answer.take, spoken, String.append_assoc, Dict.update_empty]

theorem Cut.texts {chunk : LLMProviderChunk β ν} {pieces : List (LLMProviderChunk β ν)} (h : Cut chunk pieces)
    (hc : ∃ s, chunk.content = .text s) : ∀ piece ∈ pieces, ∃ s, piece.content = .text s := by
  induction h with
  | whole chunk => simpa using hc
  | split h ih =>
    rw [List.forall_mem_cons]
    exact ⟨⟨_, rfl⟩, ih ⟨_, rfl⟩⟩

theorem answer_pieces {chunks : List (LLMProviderChunk β ν)} {pieces : List (List (LLMProviderChunk β ν))}
    (h : List.Forall₂ Cut chunks pieces) : answer pieces.flatten = answer chunks := by
  have hfold : ∀ a : Answer ν, pieces.flatten.foldl Answer.take a = chunks.foldl Answer.take a := by
    induction h with
    | nil => exact fun _ => rfl
    | cons hcut _ ih =>
      intro a
      rw [List.flatten_cons, List.foldl_append, Answer.take_pieces hcut, ih, List.foldl_cons]
  exact hfold {}

/-- The deltas since the last restart spell the answer, on either channel and however the slices are cut. -/
theorem streamed_is_answered (chunks : List (LLMProviderChunk β ν))
    (h : ∀ chunk ∈ chunks, ∃ s, chunk.content = .text s) :
    (assemble chunks).content = .text (streamed .text (reported chunks)) ∧
      (assemble chunks).reasoning = streamed .thinking (reported chunks) ∧
      ∀ pieces, List.Forall₂ Cut chunks pieces →
        assemble pieces.flatten = assemble chunks ∧
          ∀ channel, streamed channel (reported pieces.flatten) = streamed channel (reported chunks) := by
  refine ⟨?_, ?_, ?_⟩
  · rw [assemble_eq h, streamed_reported]
    rfl
  · rw [assemble_eq h, streamed_reported]
    rfl
  · intro pieces hcut
    have htexts : ∀ piece ∈ pieces.flatten, ∃ s, piece.content = .text s := by
      intro piece hpiece
      obtain ⟨group, hgroup, hmem⟩ := List.mem_flatten.mp hpiece
      obtain ⟨chunk, hchunk, hcutChunk⟩ := exists_mem_of_forall₂ hcut hgroup
      exact hcutChunk.texts (h chunk hchunk) piece hmem
    refine ⟨?_, ?_⟩
    · rw [assemble_eq htexts, assemble_eq h, answer_pieces hcut]
    · intro channel
      rw [streamed_reported, streamed_reported, answer_pieces hcut]

def retriedChunks : List (LLMProviderChunk Unit String) :=
  [{ content := .text "Hal" },
    { content := .text "Hello", reasoning := "greet", metadata := .single "model" "b", restartsAnswer := true }]

def retriedPieces : List (List (LLMProviderChunk Unit String)) :=
  [[{ content := .text "Hal" }],
    [{ content := .text "He", reasoning := "gr", restartsAnswer := true },
      { content := .text "llo", reasoning := "eet", metadata := .single "model" "b" }]]

theorem streamed_is_answered_retried :
    (assemble retriedChunks).content = .text (streamed .text (reported retriedChunks)) ∧
      assemble retriedPieces.flatten = assemble retriedChunks := by
  have htexts : ∀ chunk ∈ retriedChunks, ∃ s, chunk.content = .text s := by
    simp [retriedChunks]
  have hcut : List.Forall₂ Cut retriedChunks retriedPieces :=
    .cons (.whole _) (.cons (@Cut.split Unit String "He" "llo" "gr" "eet" _ true _ (.whole _)) .nil)
  have h := streamed_is_answered retriedChunks htexts
  exact ⟨h.1, (h.2.2 retriedPieces hcut).1⟩

example : streamed .text (reported retriedChunks) = "Hello" := by decide

end GraphSkillRuntime.ProviderStream
