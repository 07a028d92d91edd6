import Mathlib.Order.WithBot
import Sulion.Lib.Paging
import Sulion.Retrieval.Store

set_option autoImplicit false

/-! # The indexer of the semantic search

Backfill runs and indexing passes, statement by statement, with the transactions of ingest,
projection and archive between them. Backfills and passes hold `index_lock`, so that at most one of
them is at work. `now` numbers the steps; a transaction stamps its rows with the time at which it
began. Embeddings are those of the configured model, each with the text its vector is of.
-/

namespace Sulion.Retrieval.Sources

open Rust

abbrev RunId := Nat

/-- A row of `retrieval_embedding_sources`. -/
structure SourceRow extends Columns where
  contentHash : String
  lastSeenGeneration : Option Nat
  indexStatus : IndexStatus
  deletedAt : Option Nat
  updatedAt : Nat
  deriving DecidableEq

structure EmbeddingRow extends Columns where
  contentHash : String
  embeddingDimensions : Nat
  chunk : String
  deriving DecidableEq

/-! ## Backfill runs -/

/-- Where a source stands in the order of its family; `⊥` is the cursor of a new run. -/
abbrev Position := WithBot (SessionUuid ×ₗ Int ×ₗ Int)

def position : SourceKey → Position
  | .event session byteOffset blockOrd => (toLex (session, toLex (byteOffset, blockOrd)) :)
  | .operation session turnId operationOrd _ => (toLex (session, toLex (turnId, operationOrd)) :)
  | .turn session turnId => (toLex (session, toLex (turnId, (0 : Int))) :)

inductive RunStatus
  | running | complete | failed
  deriving DecidableEq

structure BackfillRun where
  generation : Nat
  sourceFamily : SourceFamily
  scopeRepo : Option String
  scopeSessionUuid : Option SessionUuid
  force : Bool
  status : RunStatus
  cursor : Position
  rowsSeen : Nat
  rowsMarkedPending : Nat
  startedAt : Nat

/-- The family and the scope of a run, in the queries that load its sources. -/
def BackfillRun.covers (run : BackfillRun) (source : EmbeddingSource) : Bool :=
  family source.sourceKey = run.sourceFamily &&
    run.scopeSessionUuid.all (source.sourceKey.session = ·) &&
    run.scopeRepo.all (source.repoName = some ·)

/-- What holds the lock, and how far it is. -/
inductive Work
  | idle
  /-- A page of the run's sources is read; those in `todo` are still to be marked as seen. -/
  | page (run : RunId) (todo page : List EmbeddingSource) (marked : Nat) (short : Bool)
  /-- The last page is done. -/
  | closing (run : RunId)
  /-- The stale sources are deleted. -/
  | swept (run : RunId)
  /-- A pass reads the pending sources one by one. -/
  | loading (todo : List SourceKey) (sources : List EmbeddingSource) (deleted : List SourceKey)
  /-- It waits for the embedder, and persists next. -/
  | loaded (sources : List EmbeddingSource)

/-- A source was enqueued, or a run has passed it to `upsert_source_seen`. -/
structure Mark where
  key : SourceKey
  time : Nat

structure Indexer where
  store : Store
  sources : SourceKey → Option SourceRow
  embeddings : SourceKey → Table Nat EmbeddingRow
  runs : List BackfillRun
  generation : Nat
  work : Work
  now : Nat
  marks : List Mark

/-- The statements of the other transactions. -/
inductive Statement
  /-- The transcript and timeline tables are written. -/
  | tables (store : Store)
  | enqueueEvent (key : SourceKey) (kind : SourceKind) (contentHash : String)
  | upsertOperation (key : SourceKey) (kind : SourceKind) (contentHash : String)
  | enqueueDigest (key : SourceKey) (repo : Option String) (contentHash : String)
  | markDeleted (key : SourceKey)
  /-- A purge or a restore deletes the session's sources. -/
  | removeSession (session : SessionUuid)

inductive Action
  | transaction (began : Nat) (statements : List Statement)
  | reindex (repo : Option String) (session : Option SessionUuid)
  | loadPage (run : RunId) (limit : Nat)
  | upsertSeen
  | saveCursor
  | deleteStale
  | complete
  /-- The error of a run is recorded. -/
  | failRun
  /-- What is under way ends without a result. -/
  | abandon
  | beginPass (keys : List SourceKey)
  | loadSource
  | finishLoad
  /-- The embedder has answered, for the sources in `wrong` with a vector of another length. -/
  | persist (wrong : List SourceKey)

namespace Indexer

variable (hashText : String → String) (config : Config)

/-! ## Rows -/

def putSource (i : Indexer) (key : SourceKey) (row : SourceRow) : Indexer :=
  { i with sources := Function.update i.sources key (some row) }

def mark (i : Indexer) (key : SourceKey) : Indexer :=
  { i with marks := ⟨key, i.now⟩ :: i.marks }

/-- The sources are marked deleted and lose their embeddings. -/
def markSourcesDeleted (i : Indexer) (stamp : Nat) (gone : SourceKey → Bool) : Indexer :=
  { i with
    embeddings := fun key => if gone key then ∅ else i.embeddings key
    sources := fun key =>
      if gone key then
        (i.sources key).map fun row =>
          { row with indexStatus := .deleted, deletedAt := some stamp, updatedAt := stamp }
      else i.sources key }

/-! ## The statements of other transactions -/

/-- `enqueue_event_embedding_source`, of a block that has text. -/
def enqueueEvent (i : Indexer) (stamp : Nat) (key : SourceKey) (kind : SourceKind)
    (contentHash : String) : Indexer :=
  let old := i.sources key
  (i.putSource key
    { sourceKind := kind
      turnId := none
      operationOrd := none
      repoName := old.bind (·.repoName)
      contentHash := contentHash
      lastSeenGeneration := old.bind (·.lastSeenGeneration)
      indexStatus := .pending
      deletedAt := none
      updatedAt := stamp }).mark key

/-- The turn and the ordinal in the key of an operation. -/
def operationColumns : SourceKey → Option Int × Option Int
  | .operation _ turnId operationOrd _ => (some turnId, some operationOrd)
  | _ => (none, none)

/-- `upsert_operation_source`, which leaves a row alone that says the same. -/
def upsertOperation (i : Indexer) (stamp : Nat) (key : SourceKey) (kind : SourceKind)
    (contentHash : String) : Indexer :=
  let old := i.sources key
  let same := old.any fun row =>
    row.sourceKind = kind ∧ row.turnId = (operationColumns key).1 ∧
      row.operationOrd = (operationColumns key).2 ∧ row.contentHash = contentHash ∧
      row.indexStatus ≠ .deleted ∧ row.deletedAt = none
  if same then i
  else
    ({ i with embeddings := Function.update i.embeddings key ∅ }.putSource key
      { sourceKind := kind
        turnId := (operationColumns key).1
        operationOrd := (operationColumns key).2
        repoName := old.bind (·.repoName)
        contentHash := contentHash
        lastSeenGeneration := old.bind (·.lastSeenGeneration)
        indexStatus := .pending
        deletedAt := none
        updatedAt := stamp }).mark key

def digestTurn : SourceKey → Option Int
  | .turn _ turnId => some turnId
  | _ => none

/-- The insert of `replace_embedding_sources`. -/
def enqueueDigest (i : Indexer) (stamp : Nat) (key : SourceKey) (repo : Option String)
    (contentHash : String) : Indexer :=
  (i.putSource key
    { sourceKind := .turnDigest
      turnId := digestTurn key
      operationOrd := none
      repoName := repo
      contentHash := contentHash
      lastSeenGeneration := none
      indexStatus := .pending
      deletedAt := none
      updatedAt := stamp }).mark key

def removeSession (i : Indexer) (session : SessionUuid) : Indexer :=
  { i with
    embeddings := fun key => if key.session = session then ∅ else i.embeddings key
    sources := fun key => if key.session = session then none else i.sources key }

def execute (stamp : Nat) (i : Indexer) : Statement → Indexer
  | .tables store => { i with store := store }
  | .enqueueEvent key kind contentHash => i.enqueueEvent stamp key kind contentHash
  | .upsertOperation key kind contentHash => i.upsertOperation stamp key kind contentHash
  | .enqueueDigest key repo contentHash => i.enqueueDigest stamp key repo contentHash
  | .markDeleted key => i.markSourcesDeleted stamp (· = key)
  | .removeSession session => i.removeSession session

/-! ## Backfills -/

def families : List SourceFamily := [.eventBlock, .operationCall, .operationResult, .turnDigest]

/-- `start_backfill_runs` with the next generation. -/
def startBackfillRuns (i : Indexer) (repo : Option String) (session : Option SessionUuid)
    (force : Bool) : Indexer :=
  { i with
    generation := i.generation + 1
    runs := i.runs ++ families.map fun f =>
      { generation := i.generation + 1
        sourceFamily := f
        scopeRepo := repo
        scopeSessionUuid := session
        force := force
        status := .running
        cursor := ⊥
        rowsSeen := 0
        rowsMarkedPending := 0
        startedAt := i.now } }

def updateRun (i : Indexer) (r : RunId) (f : BackfillRun → BackfillRun) : Indexer :=
  { i with runs := i.runs.modify r f }

/-- The sources of a run, in order. -/
def sortedSources (store : Store) (run : BackfillRun) : List EmbeddingSource :=
  ((store.familySources run.sourceFamily).filter run.covers).insertionSort
    fun a b => position a.sourceKey ≤ position b.sourceKey

/-- `load_backfill_sources`. -/
def loadBackfillSources (store : Store) (run : BackfillRun) (limit : Nat) :
    List EmbeddingSource :=
  Paging.page (fun source => position source.sourceKey) limit run.cursor (sortedSources store run)

/-- `has_current_embedding`. -/
def hasCurrentEmbedding (i : Indexer) (key : SourceKey) (contentHash : String) : Bool :=
  (i.embeddings key).toList.any fun chunk =>
    chunk.2.embeddingDimensions = config.embeddingDimensions ∧ chunk.2.contentHash = contentHash

def shouldPending (i : Indexer) (source : EmbeddingSource) (force : Bool) : Bool :=
  match i.sources source.sourceKey with
  | none => true
  | some row =>
      force || row.deletedAt.isSome || row.indexStatus ≠ .indexed ||
        row.contentHash ≠ hashText source.text ||
        !i.hasCurrentEmbedding config source.sourceKey row.contentHash

def upsertSourceSeen (i : Indexer) (source : EmbeddingSource) (generation : Nat) (force : Bool) :
    Indexer :=
  i.putSource source.sourceKey
    { toColumns := source.toColumns
      contentHash := hashText source.text
      lastSeenGeneration := some generation
      indexStatus := if i.shouldPending hashText config source force then .pending else .indexed
      deletedAt := none
      updatedAt := i.now }

/-- A source that `delete_stale_sources_for_completed_run` deletes. -/
def stale (run : BackfillRun) (key : SourceKey) (row : SourceRow) : Bool :=
  family key = run.sourceFamily ∧ row.deletedAt = none ∧
    row.lastSeenGeneration.getD 0 < run.generation ∧ row.updatedAt < run.startedAt ∧
    run.scopeSessionUuid.all (key.session = ·) ∧ run.scopeRepo.all (row.repoName = some ·)

def deleteStaleSources (i : Indexer) (run : BackfillRun) : Indexer :=
  i.markSourcesDeleted i.now fun key => (i.sources key).any (stale run key)

/-! ## Passes -/

def chunks (source : EmbeddingSource) : List String :=
  chunkText source.text config.embeddingMaxChars config.embeddingChunkMax

/-- `upsert_embedding`: a row that is there keeps its kind, its turn and its repository. -/
def upsertEmbedding (source : EmbeddingSource) (rows : Table Nat EmbeddingRow)
    (chunk : Nat × String) : Table Nat EmbeddingRow :=
  rows.insert chunk.1
    { sourceKind := ((rows[chunk.1]?).map (·.sourceKind)).getD source.sourceKind
      turnId := ((rows[chunk.1]?).map (·.turnId)).getD source.turnId
      operationOrd := source.operationOrd
      repoName := ((rows[chunk.1]?).map (·.repoName)).getD source.repoName
      contentHash := hashText source.text
      embeddingDimensions := config.embeddingDimensions
      chunk := chunk.2 }

/-- All chunks of a source are written, and those beyond them are deleted. -/
def writeChunks (source : EmbeddingSource) (rows : Table Nat EmbeddingRow) :
    Table Nat EmbeddingRow :=
  ((chunks config source).zipIdx.foldl
    (fun rows chunk => upsertEmbedding hashText config source rows (chunk.2, chunk.1)) rows).filter
      fun ord _ => ord < (chunks config source).length

def markSourceFailed (i : Indexer) (key : SourceKey) : Indexer :=
  { i with
    sources := Function.update i.sources key ((i.sources key).map fun row =>
      { row with indexStatus := .failed, updatedAt := i.now }) }

def markSourceIndexed (i : Indexer) (source : EmbeddingSource) : Indexer :=
  { i with
    sources := Function.update i.sources source.sourceKey
      ((i.sources source.sourceKey).map fun row =>
        { row with
          toColumns := source.toColumns
          contentHash := hashText source.text
          indexStatus := .indexed
          deletedAt := none
          updatedAt := i.now }) }

/-- One round of the persisting loop. -/
def persistSource (wrong : List SourceKey) (i : Indexer) (source : EmbeddingSource) : Indexer :=
  if source.sourceKey ∈ wrong ∧ chunks config source ≠ [] then i.markSourceFailed source.sourceKey
  else
    { i with
      embeddings := Function.update i.embeddings source.sourceKey
        (writeChunks hashText config source (i.embeddings source.sourceKey)) }.markSourceIndexed
      hashText source

/-! ## Steps -/

/-- One step, before the clock moves on. -/
def act (i : Indexer) : Action → Option Indexer
  | .transaction began statements =>
      if began ≤ i.now then some (statements.foldl (execute began) i) else none
  | .reindex repo session =>
      match i.work with
      | .idle => some (i.startBackfillRuns repo session false)
      | _ => none
  | .loadPage r limit =>
      match i.work, i.runs[r]? with
      | .idle, some run =>
          if run.status = .running ∧ 1 ≤ limit then
            let page := loadBackfillSources i.store run limit
            some { i with work := .page r page page 0 (page.length < limit) }
          else none
      | _, _ => none
  | .upsertSeen =>
      match i.work with
      | .page r (source :: todo) page marked short =>
          i.runs[r]?.map fun run =>
            let pending := i.shouldPending hashText config source run.force
            { (i.upsertSourceSeen hashText config source run.generation run.force).mark
                source.sourceKey with
              work := .page r todo page (if pending then marked + 1 else marked) short }
      | _ => none
  | .saveCursor =>
      match i.work with
      | .page r [] page marked short =>
          some { i.updateRun r fun run =>
              { run with
                cursor := Paging.lastKey (fun source => position source.sourceKey) run.cursor page
                rowsSeen := run.rowsSeen + page.length
                rowsMarkedPending := run.rowsMarkedPending + marked } with
            work := if short then .closing r else .idle }
      | _ => none
  | .deleteStale =>
      match i.work with
      | .closing r =>
          i.runs[r]?.map fun run => { i.deleteStaleSources run with work := .swept r }
      | _ => none
  | .complete =>
      match i.work with
      | .swept r =>
          some { i.updateRun r fun run => { run with status := .complete } with work := .idle }
      | _ => none
  | .failRun =>
      match i.work with
      | .page r .. | .closing r | .swept r =>
          some { i.updateRun r fun run => { run with status := .failed } with work := .idle }
      | _ => none
  | .abandon => some { i with work := .idle }
  | .beginPass keys =>
      match i.work with
      | .idle =>
          if keys.Nodup ∧ ∀ key ∈ keys, ∃ row ∈ i.sources key,
              row.indexStatus = .pending ∧ row.deletedAt = none
          then some { i with work := .loading keys [] [] }
          else none
      | _ => none
  | .loadSource =>
      match i.work with
      | .loading (key :: todo) sources deleted =>
          match i.store.currentSource key with
          | some source => some { i with work := .loading todo (sources ++ [source]) deleted }
          | none => some { i with work := .loading todo sources (deleted ++ [key]) }
      | _ => none
  | .finishLoad =>
      match i.work with
      | .loading [] sources deleted =>
          some { i.markSourcesDeleted i.now fun key => key ∈ deleted with work := .loaded sources }
      | _ => none
  | .persist wrong =>
      match i.work with
      | .loaded sources =>
          some { sources.foldl (persistSource hashText config wrong) i with work := .idle }
      | _ => none

def step (i : Indexer) (a : Action) : Option Indexer :=
  (i.act hashText config a).map fun j => { j with now := j.now + 1 }

end Indexer

end Sulion.Retrieval.Sources
