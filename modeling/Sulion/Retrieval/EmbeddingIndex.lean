import Mathlib.Data.Finset.Union
import Sulion.Ingest.Canonical

set_option autoImplicit false

/-! # The semantic index and its sources

`retrieval_embedding_sources` and `retrieval_embeddings`, and their three writers: the passes of
`index_pending_embeddings`, the ingest of an event's blocks, and the purge of a session. A pass
reads the pending sources, then the text of each, waits for the embedder and writes by key in one
transaction. A transaction is one step, and any number of passes may be on their way; `now` numbers
the steps. Texts of the other tables are whatever a pass finds. Of the rows only what the writers
decide on is kept.
-/

namespace Sulion.Retrieval

open Transition Rust Timeline Ingest

abbrev SessionUuid := Nat

abbrev PassId := Nat

/-- `source_key`. -/
inductive SourceKey
  | event (session : SessionUuid) (byteOffset : Int) (blockOrd : Int)
  | operation (session : SessionUuid) (turnId operationOrd : Int) (result : Bool)
  | turn (session : SessionUuid) (turnId : Int)
  deriving DecidableEq, Repr

def SourceKey.session : SourceKey → SessionUuid
  | event session _ _ => session
  | operation session _ _ _ => session
  | turn session _ => session

inductive IndexStatus
  | pending | indexed | failed | deleted
  deriving DecidableEq, Repr

/-- A row of `retrieval_embedding_sources`. -/
structure SourceRow where
  indexStatus : IndexStatus
  deletedAt : Option Nat
  /-- The step that last set the row to pending. -/
  dirtyAt : Nat
  deriving DecidableEq, Repr

/-- How `load_index_status_inner` counts deleted sources. -/
def SourceRow.deleted (row : SourceRow) : Bool :=
  row.deletedAt.isSome || row.indexStatus = .deleted

/-- The key columns of a row of `retrieval_embeddings`. -/
structure Embedding where
  model : String
  sourceKey : SourceKey
  chunkOrd : Nat
  deriving DecidableEq, Repr

structure Config where
  embeddingModel : String
  embeddingDimensions : Nat
  embeddingMaxChars : Nat
  embeddingChunkMax : Nat

/-- `EmbeddingSource`, and the step at which its text was read. -/
structure EmbeddingSource where
  sourceKey : SourceKey
  text : String
  readAt : Nat
  deriving DecidableEq, Repr

/-! ## Chunks -/

/-- At most `maxChunks` pieces of `maxChars` characters. -/
def cut (maxChars : Nat) : Nat → List Char → List (List Char)
  | 0, _ => []
  | _ + 1, [] => []
  | maxChunks + 1, chars => chars.take maxChars :: cut maxChars maxChunks (chars.drop maxChars)

def chunkText (text : String) (maxChars maxChunks : Nat) : List String :=
  let normalized := String.intercalate " " (splitWhitespace text)
  if normalized.isEmpty then []
  else (cut maxChars maxChunks normalized.toList).map String.ofList

/-! ## The store -/

/-- Where a pass is. -/
inductive Stage
  | absent
  /-- It reads the texts of the pending sources one by one; `deleted` are the keys whose text is
  gone, with the step of that read. -/
  | loading (todo : List SourceKey) (sources : List EmbeddingSource)
      (deleted : List (SourceKey × Nat))
  /-- It waits for the embedder. -/
  | loaded (sources : List EmbeddingSource)
  /-- It has the lengths of the embedder's vectors, and persists next. -/
  | embedded (sources : List EmbeddingSource) (vectors : List Nat)
  | done
  deriving DecidableEq, Repr

/-- The two tables and the passes. -/
structure Index where
  sources : SourceKey → Option SourceRow
  embeddings : Finset Embedding
  stage : PassId → Stage
  now : Nat

inductive Action
  /-- A pass reads the pending source rows. -/
  | begin (p : PassId) (keys : List SourceKey)
  /-- It reads the current text of its next source. -/
  | load (p : PassId) (found : Option String)
  /-- All are read; the sources without a text are marked deleted. -/
  | finishLoad (p : PassId)
  | embed (p : PassId) (vectors : List Nat)
  | fail (p : PassId)
  | persist (p : PassId)
  /-- The transaction that stores an event's blocks. -/
  | insertBlocks (session : SessionUuid) (byteOffset : Int) (speaker : Speaker)
      (blocks : List Block)
  /-- The transaction that purges a session; `turnIds` are its turns with markdown. -/
  | purge (session : SessionUuid) (turnIds : List Int)

namespace Index

/-! ## Writing -/

def goTo (i : Index) (p : PassId) (stage : Stage) : Index :=
  { i with stage := Function.update i.stage p stage }

/-- `mark_sources_deleted`, and for one key `mark_embedding_source_deleted`. -/
def markSourcesDeleted (i : Index) (keys : List SourceKey) : Index :=
  { i with
    embeddings := i.embeddings.filter fun e => e.sourceKey ∉ keys
    sources := fun key =>
      if key ∈ keys then
        (i.sources key).map fun row => { row with indexStatus := .deleted, deletedAt := some i.now }
      else i.sources key }

def upsertEmbedding (config : Config) (key : SourceKey) (i : Index) (chunkOrd : Nat) : Index :=
  { i with embeddings := insert ⟨config.embeddingModel, key, chunkOrd⟩ i.embeddings }

def deleteChunksAtOrAbove (config : Config) (i : Index) (key : SourceKey) (keepBelow : Nat) :
    Index :=
  { i with
    embeddings := i.embeddings.filter fun e =>
      ¬ (e.model = config.embeddingModel ∧ e.sourceKey = key ∧ keepBelow ≤ e.chunkOrd) }

/-- An `UPDATE` of the row with this key, if there is one. -/
def updateSource (i : Index) (key : SourceKey) (f : SourceRow → SourceRow) : Index :=
  { i with sources := Function.update i.sources key ((i.sources key).map f) }

def markSourceIndexed (i : Index) (key : SourceKey) : Index :=
  i.updateSource key fun row => { row with indexStatus := .indexed, deletedAt := none }

def markSourceFailed (i : Index) (key : SourceKey) : Index :=
  i.updateSource key fun row => { row with indexStatus := .failed }

/-- Some vector of the source does not have the configured length. -/
def mismatch (config : Config) (vectors : List Nat) : Bool :=
  vectors.any (· ≠ config.embeddingDimensions)

/-- One round of the persisting loop. -/
def persistSource (config : Config) (i : Index) : EmbeddingSource × List Nat → Index
  | (source, vectors) =>
      if mismatch config vectors then i.markSourceFailed source.sourceKey
      else
        let upserted :=
          (List.range vectors.length).foldl (upsertEmbedding config source.sourceKey) i
        (deleteChunksAtOrAbove config upserted source.sourceKey vectors.length).markSourceIndexed
          source.sourceKey

def chunkCount (config : Config) (source : EmbeddingSource) : Nat :=
  (chunkText source.text config.embeddingMaxChars config.embeddingChunkMax).length

/-- Every source with its own vectors. -/
def sourceVectors (config : Config) :
    List EmbeddingSource → List Nat → List (EmbeddingSource × List Nat)
  | [], _ => []
  | source :: sources, vectors =>
      (source, vectors.take (chunkCount config source)) ::
        sourceVectors config sources (vectors.drop (chunkCount config source))

def eventEmbeddingSource (speaker : Speaker) (block : Block) : Option (String × String) :=
  match speaker, block.kind with
  | .assistant, .text => block.text.map ("assistant_text", ·)
  | .user, .text => block.text.map ("user_prompt", ·)
  | .summary, .text => block.text.map ("summary", ·)
  | _, .toolResult =>
      if block.isError.getD false then block.text.map ("tool_error", ·) else none
  | _, _ => none

def setPending (i : Index) (key : SourceKey) : Index :=
  { i with
    sources := Function.update i.sources key (some ⟨.pending, none, i.now⟩) }

def enqueueEventEmbeddingSource (session : SessionUuid) (byteOffset : Int) (speaker : Speaker)
    (i : Index) (block : Block) : Index :=
  let key := SourceKey.event session byteOffset block.ord
  match eventEmbeddingSource speaker block with
  | none => i.markSourcesDeleted [key]
  | some (_, text) =>
      if (trim text).isEmpty then i.markSourcesDeleted [key] else i.setPending key

def replaceEmbeddingSources (i : Index) (session : SessionUuid) (turnIds : List Int) : Index :=
  let cleared : Index :=
    { i with
      embeddings := i.embeddings.filter fun e => e.sourceKey.session ≠ session
      sources := fun key => if key.session = session then none else i.sources key }
  turnIds.foldl (fun i turnId => i.setPending (.turn session turnId)) cleared

/-! ## Steps -/

/-- One step, before the clock moves on. -/
def act (config : Config) (i : Index) : Action → Option Index
  | .begin p keys =>
      if i.stage p = .absent ∧ keys.Nodup ∧
          ∀ key ∈ keys, ∃ row ∈ i.sources key, row.indexStatus = .pending ∧ row.deletedAt = none
      then some (i.goTo p (.loading keys [] []))
      else none
  | .load p found =>
      match i.stage p with
      | .loading (key :: todo) sources deleted =>
          match found with
          | some text => some (i.goTo p (.loading todo (sources ++ [⟨key, text, i.now⟩]) deleted))
          | none => some (i.goTo p (.loading todo sources (deleted ++ [(key, i.now)])))
      | _ => none
  | .finishLoad p =>
      match i.stage p with
      | .loading [] sources deleted =>
          some ((i.markSourcesDeleted (deleted.map (·.1))).goTo p
            (if sources.isEmpty then .done else .loaded sources))
      | _ => none
  | .embed p vectors =>
      match i.stage p with
      | .loaded sources =>
          if vectors.length = (sources.map (chunkCount config)).sum then
            some (i.goTo p (.embedded sources vectors))
          else some (i.goTo p .done)
      | _ => none
  | .fail p =>
      match i.stage p with
      | .absent | .done => none
      | _ => some (i.goTo p .done)
  | .persist p =>
      match i.stage p with
      | .embedded sources vectors =>
          some (((sourceVectors config sources vectors).foldl (persistSource config) i).goTo p
            .done)
      | _ => none
  | .insertBlocks session byteOffset speaker blocks =>
      some (blocks.foldl (enqueueEventEmbeddingSource session byteOffset speaker) i)
  | .purge session turnIds => some (i.replaceEmbeddingSources session turnIds)

def step (config : Config) (i : Index) (a : Action) : Option Index :=
  (i.act config a).map fun j => { j with now := i.now + 1 }

/-! ## What the index owes its sources -/

/-- Every embedding has a source row, and it is not deleted. -/
def Sourced (i : Index) : Prop :=
  ∀ e ∈ i.embeddings, ∃ row, i.sources e.sourceKey = some row ∧ row.deleted = false

/-- The pass has read the source's text, or that it has none, at that step. -/
def HasRead (i : Index) (p : PassId) (key : SourceKey) (readAt : Nat) : Prop :=
  match i.stage p with
  | .loading _ sources deleted =>
      (∃ text, ⟨key, text, readAt⟩ ∈ sources) ∨ (key, readAt) ∈ deleted
  | .loaded sources | .embedded sources _ => ∃ text, ⟨key, text, readAt⟩ ∈ sources
  | .absent | .done => False

/-- The source's row was set to pending after that step. -/
def DirtySince (i : Index) (key : SourceKey) (readAt : Nat) : Prop :=
  ∃ row ∈ i.sources key, row.indexStatus = .pending ∧ readAt < row.dirtyAt

/-- A commit of a pass leaves the sources pending that became so after the pass read them. -/
def KeepsDirty (i : Index) (a : Action) (j : Index) : Prop :=
  match a with
  | .finishLoad p | .persist p =>
      ∀ key readAt, i.HasRead p key readAt → i.DirtySince key readAt → j.DirtySince key readAt
  | _ => True

/-- The rows that a commit writes are those the pass has read: none was set to pending again, and
none that gets embeddings is gone. -/
def RowsUnchanged (config : Config) (i : Index) (a : Action) : Prop :=
  match a with
  | .finishLoad p =>
      match i.stage p with
      | .loading _ _ deleted => ∀ d ∈ deleted, ¬ i.DirtySince d.1 d.2
      | _ => True
  | .persist p =>
      match i.stage p with
      | .embedded sources vectors =>
          ∀ sv ∈ sourceVectors config sources vectors,
            ¬ i.DirtySince sv.1.sourceKey sv.1.readAt ∧
            (i.sources sv.1.sourceKey = none → sv.2 = [] ∨ mismatch config sv.2)
      | _ => True
  | _ => True

instance (i : Index) (key : SourceKey) (readAt : Nat) : Decidable (i.DirtySince key readAt) :=
  inferInstanceAs (Decidable (∃ row ∈ i.sources key, _))

instance (config : Config) (i : Index) (a : Action) : Decidable (i.RowsUnchanged config a) := by
  unfold RowsUnchanged
  split <;> try infer_instance
  all_goals split <;> infer_instance

/-- No pass has begun. -/
def Idle (i : Index) : Prop := ∀ p, i.stage p = .absent

/-! ## The sources of a pass are distinct -/

def passKeys : Stage → List SourceKey
  | .loading todo sources deleted =>
      todo ++ (sources.map (·.sourceKey) ++ deleted.map (·.1))
  | .loaded sources | .embedded sources _ => sources.map (·.sourceKey)
  | .absent | .done => []

def Distinct (i : Index) : Prop := ∀ p, (passKeys (i.stage p)).Nodup

variable {config : Config} {i j : Index} {a : Action}

@[simp] theorem goTo_stage (p : PassId) (stage : Stage) :
    (i.goTo p stage).stage = Function.update i.stage p stage := rfl

@[simp] theorem goTo_sources (p : PassId) (stage : Stage) :
    (i.goTo p stage).sources = i.sources := rfl

theorem enqueue_stage (session : SessionUuid) (byteOffset : Int) (speaker : Speaker)
    (block : Block) :
    (enqueueEventEmbeddingSource session byteOffset speaker i block).stage = i.stage := by
  unfold enqueueEventEmbeddingSource
  split
  · rfl
  · split <;> rfl

theorem insertBlocks_stage (session : SessionUuid) (byteOffset : Int) (speaker : Speaker)
    (blocks : List Block) :
    (blocks.foldl (enqueueEventEmbeddingSource session byteOffset speaker) i).stage =
      i.stage := by
  induction blocks generalizing i with
  | nil => rfl
  | cons block blocks ih => rw [List.foldl_cons, ih, enqueue_stage]

theorem setPendings_stage (session : SessionUuid) (turnIds : List Int) :
    (turnIds.foldl (fun i turnId => i.setPending (.turn session turnId)) i).stage = i.stage := by
  induction turnIds generalizing i with
  | nil => rfl
  | cons turnId turnIds ih => rw [List.foldl_cons, ih]; rfl

theorem replaceEmbeddingSources_stage (session : SessionUuid) (turnIds : List Int) :
    (i.replaceEmbeddingSources session turnIds).stage = i.stage := by
  rw [replaceEmbeddingSources, setPendings_stage]

theorem upserts_eq (key : SourceKey) (ords : List Nat) :
    ords.foldl (upsertEmbedding config key) i =
      { i with
        embeddings :=
          i.embeddings ∪ (ords.map fun ord => ⟨config.embeddingModel, key, ord⟩).toFinset } := by
  induction ords generalizing i with
  | nil => simp
  | cons ord ords ih =>
      rw [List.foldl_cons, ih]
      simp [upsertEmbedding]

@[simp] theorem persistSource_stage (sv : EmbeddingSource × List Nat) :
    (persistSource config i sv).stage = i.stage := by
  obtain ⟨source, vectors⟩ := sv
  simp only [persistSource, upserts_eq]
  split <;> rfl

theorem persist_stage (svs : List (EmbeddingSource × List Nat)) :
    (svs.foldl (persistSource config) i).stage = i.stage := by
  induction svs generalizing i with
  | nil => rfl
  | cons sv svs ih => rw [List.foldl_cons, ih, persistSource_stage]

/-- What the other passes are doing is not a pass's business. -/
theorem Distinct.goTo (h : i.Distinct) (hij : j.stage = i.stage) {p : PassId} {stage : Stage}
    (hstage : (passKeys stage).Nodup) : (j.goTo p stage).Distinct := by
  intro q
  rw [goTo_stage, hij]
  by_cases hq : q = p
  · subst hq
    simpa using hstage
  · simpa [hq] using h q

theorem Distinct.of_stage (h : i.Distinct) (hij : j.stage = i.stage) : j.Distinct := by
  intro q
  rw [hij]
  exact h q

theorem Distinct.act (h : i.Distinct) (hact : i.act config a = some j) : j.Distinct := by
  cases a with
  | begin p keys =>
      simp only [Index.act] at hact
      split at hact
      · rename_i hok
        cases hact
        exact h.goTo rfl (by simpa [passKeys] using hok.2.1)
      · cases hact
  | load p found =>
      simp only [Index.act] at hact
      split at hact
      · rename_i key todo sources deleted hstage
        have hp := h p
        rw [hstage] at hp
        cases found with
        | some text =>
            cases hact
            refine h.goTo rfl (hp.perm ?_)
            simp only [passKeys, List.map_append, List.map_cons, List.map_nil]
            grind
        | none =>
            cases hact
            refine h.goTo rfl (hp.perm ?_)
            simp only [passKeys, List.map_append, List.map_cons, List.map_nil]
            grind
      · cases hact
  | finishLoad p =>
      simp only [Index.act] at hact
      split at hact
      · rename_i sources deleted hstage
        have hp := h p
        rw [hstage] at hp
        cases hact
        refine h.goTo rfl ?_
        split
        · exact List.nodup_nil
        · exact hp.sublist (by simp [passKeys])
      · cases hact
  | embed p vectors =>
      simp only [Index.act] at hact
      split at hact
      · rename_i sources hstage
        have hp := h p
        rw [hstage] at hp
        split at hact
        · cases hact
          exact h.goTo rfl hp
        · cases hact
          exact h.goTo rfl List.nodup_nil
      · cases hact
  | fail p =>
      simp only [Index.act] at hact
      split at hact
      · cases hact
      · cases hact
      · cases hact
        exact h.goTo rfl List.nodup_nil
  | persist p =>
      simp only [Index.act] at hact
      split at hact
      · cases hact
        exact h.goTo (persist_stage _) List.nodup_nil
      · cases hact
  | insertBlocks session byteOffset speaker blocks =>
      cases hact
      exact h.of_stage (insertBlocks_stage ..)
  | purge session turnIds =>
      cases hact
      exact h.of_stage (replaceEmbeddingSources_stage ..)

theorem Distinct.step (h : i.Distinct) (hstep : i.step config a = some j) : j.Distinct := by
  obtain ⟨k, hact, rfl⟩ := Option.map_eq_some_iff.mp hstep
  exact (h.act hact).of_stage rfl

/-! ## Ingest and purge keep the index sourced -/

theorem Sourced.markSourcesDeleted (h : i.Sourced) (keys : List SourceKey) :
    (i.markSourcesDeleted keys).Sourced := by
  intro e he
  obtain ⟨hmem, hkey⟩ := Finset.mem_filter.mp he
  obtain ⟨row, hrow, hlive⟩ := h e hmem
  exact ⟨row, by simp [Index.markSourcesDeleted, hkey, hrow], hlive⟩

theorem Sourced.setPending (h : i.Sourced) (key : SourceKey) : (i.setPending key).Sourced := by
  intro e he
  by_cases hkey : e.sourceKey = key
  · exact ⟨⟨.pending, none, i.now⟩, by simp [Index.setPending, hkey], rfl⟩
  · obtain ⟨row, hrow, hlive⟩ := h e he
    exact ⟨row, by simp [Index.setPending, hkey, hrow], hlive⟩

theorem Sourced.enqueue (h : i.Sourced) (session : SessionUuid) (byteOffset : Int)
    (speaker : Speaker) (block : Block) :
    (enqueueEventEmbeddingSource session byteOffset speaker i block).Sourced := by
  unfold enqueueEventEmbeddingSource
  split
  · exact h.markSourcesDeleted _
  · split
    · exact h.markSourcesDeleted _
    · exact h.setPending _

theorem Sourced.insertBlocks (h : i.Sourced) (session : SessionUuid) (byteOffset : Int)
    (speaker : Speaker) (blocks : List Block) :
    (blocks.foldl (enqueueEventEmbeddingSource session byteOffset speaker) i).Sourced := by
  induction blocks generalizing i with
  | nil => exact h
  | cons block blocks ih => exact ih (h.enqueue session byteOffset speaker block)

theorem Sourced.setPendings (h : i.Sourced) (session : SessionUuid) (turnIds : List Int) :
    (turnIds.foldl (fun i turnId => i.setPending (.turn session turnId)) i).Sourced := by
  induction turnIds generalizing i with
  | nil => exact h
  | cons turnId turnIds ih => exact ih (h.setPending _)

theorem Sourced.replaceEmbeddingSources (h : i.Sourced) (session : SessionUuid)
    (turnIds : List Int) : (i.replaceEmbeddingSources session turnIds).Sourced := by
  apply Sourced.setPendings
  intro e he
  obtain ⟨hmem, hsession⟩ := Finset.mem_filter.mp he
  obtain ⟨row, hrow, hlive⟩ := h e hmem
  exact ⟨row, by simp [hsession, hrow], hlive⟩

/-! ## The persisting transaction -/

section Persist

variable (source : EmbeddingSource) (vectors : List Nat)

theorem persistSource_sources (key : SourceKey) :
    (persistSource config i (source, vectors)).sources key =
      if key = source.sourceKey then
        (i.sources key).map fun row =>
          if mismatch config vectors then { row with indexStatus := .failed }
          else { row with indexStatus := .indexed, deletedAt := none }
      else i.sources key := by
  simp only [persistSource, upserts_eq]
  by_cases hkey : key = source.sourceKey
  · subst hkey
    split <;> simp [markSourceFailed, markSourceIndexed, deleteChunksAtOrAbove, updateSource]
  · split <;>
      simp [markSourceFailed, markSourceIndexed, deleteChunksAtOrAbove, updateSource, hkey]

theorem mem_persistSource_embeddings (e : Embedding) :
    e ∈ (persistSource config i (source, vectors)).embeddings ↔
      if mismatch config vectors then e ∈ i.embeddings
      else if e.model = config.embeddingModel ∧ e.sourceKey = source.sourceKey then
        e.chunkOrd < vectors.length
      else e ∈ i.embeddings := by
  obtain ⟨model, key, ord⟩ := e
  simp only [persistSource, upserts_eq]
  split
  · rfl
  · simp only [markSourceIndexed, deleteChunksAtOrAbove, updateSource, Finset.mem_filter,
      Finset.mem_union, List.mem_toFinset, List.mem_map, List.mem_range]
    grind

theorem persistSource_sources_eq_none_iff (sv : EmbeddingSource × List Nat) (key : SourceKey) :
    (persistSource config i sv).sources key = none ↔ i.sources key = none := by
  rw [persistSource_sources]
  split <;> simp

/-- The row of a persisted source, if it is there, is not pending. -/
theorem persistSource_not_pending {row : SourceRow}
    (h : (persistSource config i (source, vectors)).sources source.sourceKey = some row) :
    row.indexStatus ≠ .pending := by
  rw [persistSource_sources, if_pos rfl] at h
  obtain ⟨old, -, rfl⟩ := Option.map_eq_some_iff.mp h
  split <;> simp

theorem Sourced.persistSource (h : i.Sourced)
    (hrow : i.sources source.sourceKey = none → vectors = [] ∨ mismatch config vectors) :
    (persistSource config i (source, vectors)).Sourced := by
  intro e he
  rw [mem_persistSource_embeddings] at he
  rw [persistSource_sources]
  by_cases hkey : e.sourceKey = source.sourceKey
  · cases hi : i.sources source.sourceKey with
    | none =>
        -- nothing was inserted, so the embedding was there without a row
        have hmem : e ∈ i.embeddings := by
          rcases hrow hi with rfl | hmis
          · grind [List.length_nil]
          · simpa [hmis] using he
        obtain ⟨row, hrow', -⟩ := h e hmem
        rw [hkey, hi] at hrow'
        cases hrow'
    | some old =>
        rw [if_pos hkey, hkey, hi]
        refine ⟨_, rfl, ?_⟩
        split
        · rename_i hmis
          obtain ⟨row, hrow', hlive⟩ := h e (by simpa [hmis] using he)
          rw [hkey, hi] at hrow'
          cases hrow'
          simp only [SourceRow.deleted, Bool.or_eq_false_iff] at hlive
          simp [SourceRow.deleted, hlive.1]
        · simp [SourceRow.deleted]
  · rw [if_neg hkey]
    exact h e (by grind)

end Persist

/-- The loop of the transaction. -/
def persistAll (config : Config) (i : Index) (svs : List (EmbeddingSource × List Nat)) : Index :=
  svs.foldl (persistSource config) i

/-- What a source needs for the index to stay sourced when it is persisted. -/
def RowOrNothing (config : Config) (i : Index) (sv : EmbeddingSource × List Nat) : Prop :=
  i.sources sv.1.sourceKey = none → sv.2 = [] ∨ mismatch config sv.2

theorem Sourced.persistAll (h : i.Sourced) {svs : List (EmbeddingSource × List Nat)}
    (hrows : ∀ sv ∈ svs, RowOrNothing config i sv) : (i.persistAll config svs).Sourced := by
  induction svs generalizing i with
  | nil => exact h
  | cons sv svs ih =>
      have hhead := hrows sv List.mem_cons_self
      apply ih (h.persistSource sv.1 sv.2 hhead)
      intro sv' hsv' hnone
      rw [persistSource_sources_eq_none_iff] at hnone
      exact hrows sv' (List.mem_cons_of_mem _ hsv') hnone

/-- A row that is not pending stays so. -/
theorem persistAll_not_pending {svs : List (EmbeddingSource × List Nat)} {key : SourceKey}
    (h : ∀ row, i.sources key = some row → row.indexStatus ≠ .pending) {row : SourceRow}
    (hrow : (i.persistAll config svs).sources key = some row) : row.indexStatus ≠ .pending := by
  induction svs generalizing i with
  | nil => exact h row hrow
  | cons sv svs ih =>
      refine ih (fun row' hrow' => ?_) hrow
      by_cases hkey : key = sv.1.sourceKey
      · subst hkey
        exact persistSource_not_pending sv.1 sv.2 hrow'
      · rw [persistSource_sources, if_neg hkey] at hrow'
        exact h row' hrow'

theorem persistAll_written_not_pending {svs : List (EmbeddingSource × List Nat)}
    {sv : EmbeddingSource × List Nat} (hsv : sv ∈ svs) {row : SourceRow}
    (hrow : (i.persistAll config svs).sources sv.1.sourceKey = some row) :
    row.indexStatus ≠ .pending := by
  obtain ⟨before, after, rfl⟩ := List.append_of_mem hsv
  rw [persistAll, List.foldl_append, List.foldl_cons] at hrow
  exact persistAll_not_pending (fun row' => persistSource_not_pending sv.1 sv.2) hrow

theorem persistAll_sources_eq_none_iff (svs : List (EmbeddingSource × List Nat))
    (key : SourceKey) : (i.persistAll config svs).sources key = none ↔ i.sources key = none := by
  induction svs generalizing i with
  | nil => exact Iff.rfl
  | cons sv svs ih =>
      apply Iff.trans (ih (i := persistSource config i sv))
      exact persistSource_sources_eq_none_iff sv key

theorem mem_persistAll_of_ne {svs : List (EmbeddingSource × List Nat)} {e : Embedding}
    (he : e ∈ i.embeddings) (hne : ∀ sv ∈ svs, e.sourceKey ≠ sv.1.sourceKey) :
    e ∈ (i.persistAll config svs).embeddings := by
  induction svs generalizing i with
  | nil => exact he
  | cons sv svs ih =>
      refine ih ?_ fun sv' hsv' => hne sv' (List.mem_cons_of_mem _ hsv')
      rw [mem_persistSource_embeddings]
      have := hne sv List.mem_cons_self
      grind

/-- An embedding that is persisted for a source without a row has no source. -/
theorem not_sourced_persistAll {svs : List (EmbeddingSource × List Nat)}
    (hnodup : (svs.map (·.1.sourceKey)).Nodup) {sv : EmbeddingSource × List Nat} (hsv : sv ∈ svs)
    (hrow : ¬ RowOrNothing config i sv) : ¬ (i.persistAll config svs).Sourced := by
  simp only [RowOrNothing, Classical.not_imp, not_or] at hrow
  obtain ⟨hnone, hne, hmis⟩ := hrow
  intro hsourced
  obtain ⟨before, after, rfl⟩ := List.append_of_mem hsv
  have hmem : ⟨config.embeddingModel, sv.1.sourceKey, 0⟩ ∈
      (i.persistAll config (before ++ sv :: after)).embeddings := by
    rw [persistAll, List.foldl_append, List.foldl_cons]
    apply mem_persistAll_of_ne
    · rw [mem_persistSource_embeddings, if_neg hmis, if_pos ⟨rfl, rfl⟩]
      exact List.length_pos_iff.mpr hne
    · intro sv' hsv'
      simp only [List.map_append, List.map_cons] at hnodup
      have hafter := (List.nodup_cons.mp hnodup.of_append_right).1
      intro heq
      have hmem := List.mem_map_of_mem (f := fun sv => sv.1.sourceKey) hsv'
      exact hafter (by simpa [← heq] using hmem)
  obtain ⟨row, hrow, -⟩ := hsourced _ hmem
  rw [(persistAll_sources_eq_none_iff _ _).mpr hnone] at hrow
  cases hrow

theorem sourceVectors_map (config : Config) (sources : List EmbeddingSource)
    (vectors : List Nat) :
    (sourceVectors config sources vectors).map (·.1) = sources := by
  induction sources generalizing vectors with
  | nil => rfl
  | cons source sources ih => simp [sourceVectors, ih]

theorem sourceVectors_keys (sources : List EmbeddingSource) (vectors : List Nat) :
    (sourceVectors config sources vectors).map (·.1.sourceKey) =
      sources.map (·.sourceKey) := by
  rw [← sourceVectors_map config sources vectors, List.map_map]
  simp only [sourceVectors_map]
  rfl

/-! ## One step -/

theorem not_dirtySince_of_not_pending {key : SourceKey} {readAt : Nat}
    (h : ∀ row, i.sources key = some row → row.indexStatus ≠ .pending) :
    ¬ i.DirtySince key readAt := by
  rintro ⟨row, hrow, hpending, -⟩
  exact h row hrow hpending

/-- It is a matter of the two tables. -/
theorem Sourced.of_tables (h : i.Sourced) (hsources : j.sources = i.sources)
    (hembeddings : j.embeddings = i.embeddings) : j.Sourced := by
  rw [Sourced, hsources, hembeddings]
  exact h

theorem markSourcesDeleted_not_pending {keys : List SourceKey} {key : SourceKey}
    (hkey : key ∈ keys) {row : SourceRow}
    (hrow : (i.markSourcesDeleted keys).sources key = some row) : row.indexStatus ≠ .pending := by
  simp only [markSourcesDeleted, if_pos hkey, Option.map_eq_some_iff] at hrow
  obtain ⟨old, -, rfl⟩ := hrow
  simp

/-- Marking the sources whose text is gone. -/
theorem finishLoad_iff (h : i.Distinct) (hs : i.Sourced) {p : PassId}
    (hstep : i.step config (.finishLoad p) = some j) :
    j.Sourced ∧ i.KeepsDirty (.finishLoad p) j ↔ i.RowsUnchanged config (.finishLoad p) := by
  obtain ⟨k, hact, rfl⟩ := Option.map_eq_some_iff.mp hstep
  simp only [act] at hact
  split at hact
  · rename_i sources deleted hstage
    cases hact
    have hp := h p
    simp only [hstage, passKeys, List.nil_append] at hp
    simp only [KeepsDirty, RowsUnchanged, HasRead, hstage]
    constructor
    · rintro ⟨-, hkeeps⟩ d hd hdirty
      have hkept := hkeeps d.1 d.2 (.inr hd) hdirty
      refine absurd hkept (not_dirtySince_of_not_pending fun row hrow => ?_)
      exact markSourcesDeleted_not_pending (List.mem_map_of_mem hd) hrow
    · intro hclean
      refine ⟨(hs.markSourcesDeleted (deleted.map (·.1))).of_tables rfl rfl, ?_⟩
      rintro key readAt (⟨text, hread⟩ | hread) hdirty
      · -- the source has a text, so its key is not among the deleted ones
        have hkey : key ∉ deleted.map (·.1) := fun hmem =>
          List.disjoint_of_nodup_append hp (List.mem_map_of_mem hread) hmem
        obtain ⟨row, hrow, hpending⟩ := hdirty
        exact ⟨row, by simpa [markSourcesDeleted, hkey] using hrow, hpending⟩
      · exact absurd hdirty (hclean _ hread)
  · cases hact

/-- The persisting transaction. -/
theorem persist_iff (h : i.Distinct) (hs : i.Sourced) {p : PassId}
    (hstep : i.step config (.persist p) = some j) :
    j.Sourced ∧ i.KeepsDirty (.persist p) j ↔ i.RowsUnchanged config (.persist p) := by
  obtain ⟨k, hact, rfl⟩ := Option.map_eq_some_iff.mp hstep
  simp only [act] at hact
  split at hact
  · rename_i sources vectors hstage
    cases hact
    have hp := h p
    simp only [hstage, passKeys] at hp
    simp only [KeepsDirty, RowsUnchanged, HasRead, hstage]
    constructor
    · rintro ⟨hsourced, hkeeps⟩ sv hsv
      have hmem : sv.1 ∈ sources := by
        rw [← sourceVectors_map config sources vectors]
        exact List.mem_map_of_mem hsv
      constructor
      · intro hdirty
        have hkept := hkeeps _ _ ⟨_, hmem⟩ hdirty
        refine absurd hkept (not_dirtySince_of_not_pending fun row hrow => ?_)
        exact persistAll_written_not_pending hsv hrow
      · by_contra hrow
        refine not_sourced_persistAll ?_ hsv hrow (hsourced.of_tables rfl rfl)
        rwa [sourceVectors_keys]
    · intro hclean
      refine ⟨(hs.persistAll fun sv hsv => (hclean sv hsv).2).of_tables rfl rfl, ?_⟩
      rintro key readAt ⟨text, hread⟩ hdirty
      rw [← sourceVectors_map config sources vectors] at hread
      obtain ⟨sv, hsv, heq⟩ := List.mem_map.mp hread
      have := (hclean sv hsv).1
      rw [heq] at this
      exact absurd hdirty this
  · cases hact

theorem step_iff (h : i.Distinct) (hs : i.Sourced) (hstep : i.step config a = some j) :
    j.Sourced ∧ i.KeepsDirty a j ↔ i.RowsUnchanged config a := by
  have hrest : i.RowsUnchanged config a → i.KeepsDirty a j → j.Sourced →
      (j.Sourced ∧ i.KeepsDirty a j ↔ i.RowsUnchanged config a) := fun h1 h2 h3 =>
    ⟨fun _ => h1, fun _ => ⟨h3, h2⟩⟩
  cases a with
  | finishLoad p => exact finishLoad_iff h hs hstep
  | persist p => exact persist_iff h hs hstep
  | insertBlocks session byteOffset speaker blocks =>
      cases hstep
      have hj := hs.insertBlocks session byteOffset speaker blocks
      exact hrest trivial trivial (hj.of_tables rfl rfl)
  | purge session turnIds =>
      cases hstep
      have hj := hs.replaceEmbeddingSources session turnIds
      exact hrest trivial trivial (hj.of_tables rfl rfl)
  | begin p keys =>
      obtain ⟨k, hact, rfl⟩ := Option.map_eq_some_iff.mp hstep
      simp only [act] at hact
      split at hact <;> cases hact
      exact hrest trivial trivial (hs.of_tables rfl rfl)
  | load p found =>
      obtain ⟨k, hact, rfl⟩ := Option.map_eq_some_iff.mp hstep
      simp only [act] at hact
      repeat' split at hact
      all_goals cases hact
      all_goals exact hrest trivial trivial (hs.of_tables rfl rfl)
  | embed p vectors =>
      obtain ⟨k, hact, rfl⟩ := Option.map_eq_some_iff.mp hstep
      simp only [act] at hact
      repeat' split at hact
      all_goals cases hact
      all_goals exact hrest trivial trivial (hs.of_tables rfl rfl)
  | fail p =>
      obtain ⟨k, hact, rfl⟩ := Option.map_eq_some_iff.mp hstep
      simp only [act] at hact
      split at hact <;> cases hact
      exact hrest trivial trivial (hs.of_tables rfl rfl)

theorem Idle.distinct (h : i.Idle) : i.Distinct := by
  intro p
  rw [h p]
  exact List.nodup_nil

/-- **The index keeps its sources** in every run whose commits write rows that are unchanged since
the pass read them: every embedding has a source row that is not deleted, and a source that became
pending after a pass read it is pending when that pass has committed. In such a run a step keeps
both if and only if it meets that condition. -/
theorem index_keeps_sources (h : i.Idle) (hs : i.Sourced)
    (hrun : Run (Index.step config) (RowsUnchanged config) i j) :
    j.Sourced ∧ ∀ a k, j.step config a = some k →
      (k.Sourced ∧ j.KeepsDirty a k ↔ j.RowsUnchanged config a) := by
  have hdistinct : Preserved (Index.step config) (RowsUnchanged config) Distinct :=
    fun _ _ _ h _ hstep => h.step hstep
  have hj : j.Distinct := hrun.invariant hdistinct h.distinct
  have hsourced : j.Sourced :=
    hrun.invariant_of hdistinct
      (fun _ _ _ hd hs hok hstep => ((step_iff hd hs hstep).mpr hok).1) h.distinct hs
  exact ⟨hsourced, fun a k hstep => step_iff hj hsourced hstep⟩

/-! ## Where it fails -/

def empty : Index :=
  { sources := fun _ => none, embeddings := ∅, stage := fun _ => .absent, now := 0 }

theorem Idle.empty : Idle empty := fun _ => rfl

theorem Sourced.empty : Sourced empty := fun _ he => by cases he

/-- The store of one text block, and the passes over it with a model of three dimensions. -/
def oneBlock (text : String) : Action :=
  .insertBlocks 1 0 .assistant [{ ord := 0, kind := .text, text := some text }]

def threeDimensions : Config := ⟨"model", 3, 1000, 4⟩

/-- A session purged while the embedder works leaves an embedding without a source row, and a
source that is changed in that time is not pending after the commit. -/
theorem index_loses_sources :
    (∃ j, Run (step threeDimensions) anyStep empty j ∧ ¬ j.Sourced) ∧
    ∃ j k, Run (step threeDimensions) anyStep empty j ∧
      j.step threeDimensions (.persist 0) = some k ∧ ¬ j.KeepsDirty (.persist 0) k := by
  constructor
  · have hrun : ∃ j ∈ runList (step threeDimensions) empty
        [oneBlock "old", .begin 0 [.event 1 0 0], .load 0 (some "old"), .finishLoad 0,
          .purge 1 [0], .embed 0 [3], .persist 0],
        ⟨"model", .event 1 0 0, 0⟩ ∈ j.embeddings ∧ j.sources (.event 1 0 0) = none := by
      decide +kernel
    obtain ⟨j, hj, hmem, hnone⟩ := hrun
    refine ⟨j, .of_runList _ hj, fun hsourced => ?_⟩
    obtain ⟨row, hrow, -⟩ := hsourced _ hmem
    rw [hnone] at hrow
    cases hrow
  · have hrun : ∃ j ∈ runList (step threeDimensions) empty
        [oneBlock "old", .begin 0 [.event 1 0 0], .load 0 (some "old"), .finishLoad 0,
          oneBlock "new", .embed 0 [3]],
        j.stage 0 = .embedded [⟨.event 1 0 0, "old", 2⟩] [3] ∧
        j.DirtySince (.event 1 0 0) 2 ∧
        ∃ k ∈ j.step threeDimensions (.persist 0), ¬ k.DirtySince (.event 1 0 0) 2 := by
      decide +kernel
    obtain ⟨j, hj, hstage, hdirty, k, hk, hclean⟩ := hrun
    refine ⟨j, k, .of_runList _ hj, hk, fun hkeeps => hclean (hkeeps _ _ ?_ hdirty)⟩
    simp only [HasRead, hstage]
    exact ⟨"old", List.mem_singleton_self _⟩

/-- A block is indexed, and its session purged afterwards. -/
theorem index_keeps_sources_purged : ∃ j : Index,
    ⟨"model", .turn 1 0, 0⟩ ∈ j.embeddings ∧ j.Sourced := by
  have hrun : ∃ j ∈ runList (restrict (step threeDimensions) (RowsUnchanged threeDimensions)) empty
      [oneBlock "old", .begin 0 [.event 1 0 0], .load 0 (some "old"), .finishLoad 0,
        .embed 0 [3], .persist 0, .purge 1 [0], .begin 1 [.turn 1 0], .load 1 (some "digest"),
        .finishLoad 1, .embed 1 [3], .persist 1],
      ⟨"model", .turn 1 0, 0⟩ ∈ j.embeddings := by
    decide +kernel
  obtain ⟨j, hj, hmem⟩ := hrun
  exact ⟨j, hmem, (index_keeps_sources .empty .empty (.of_restrict _ hj)).1⟩

end Index

end Sulion.Retrieval
