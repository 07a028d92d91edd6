import Sulion.Retrieval.Backfill

set_option autoImplicit false

/-! # What a step does to a source

`RowStep` lists, once and for all, how a step may leave the row of a source and its embeddings
(`rowStep`). That stamps and generations lie in the past (`Clocked`), and that the embeddings of an
indexed source are the chunks of a text with its hash (`Exact`), follows case by case.
-/

namespace Sulion.Retrieval.Sources

open Transition

/-! ## The chunks of a text -/

/-- The columns of an embedding that depend on the text. -/
def EmbeddingRow.content (row : EmbeddingRow) : String × String × Nat :=
  (row.chunk, row.contentHash, row.embeddingDimensions)

namespace Indexer

/-- The embeddings are the chunks of the text, and no others. -/
def ChunksOf (hashText : String → String) (config : Config) (text : String)
    (rows : Table Nat EmbeddingRow) : Prop :=
  ∀ ord : Nat, (rows[ord]?).map EmbeddingRow.content =
    ((chunkText text config.embeddingMaxChars config.embeddingChunkMax)[ord]?).map
      fun chunk => (chunk, hashText text, config.embeddingDimensions)

variable {hashText : String → String} {config : Config} {i j k : Indexer} {a : Action}
  {key : SourceKey} {row old : SourceRow} {rows : Table Nat EmbeddingRow}
  {source : EmbeddingSource}

variable (hashText config) in
/-- The upserts of a list of chunks, numbered from `n`. -/
theorem lookup_upserts (source : EmbeddingSource) (chunks : List String) (n : Nat)
    (rows : Table Nat EmbeddingRow) (ord : Nat) :
    (((chunks.zipIdx n).foldl (fun rows chunk =>
      upsertEmbedding hashText config source rows (chunk.2, chunk.1)) rows)[ord]?).map
        EmbeddingRow.content =
      if n ≤ ord ∧ ord < n + chunks.length then
        (chunks[ord - n]?).map fun chunk =>
          (chunk, hashText source.text, config.embeddingDimensions)
      else (rows[ord]?).map EmbeddingRow.content := by
  induction chunks generalizing n rows with
  | nil => simp [show ¬ (n ≤ ord ∧ ord < n) by omega]
  | cons chunk chunks ih =>
      rw [List.zipIdx_cons, List.foldl_cons, ih]
      by_cases hord : n = ord
      · subst hord
        rw [if_neg (by omega), if_pos ⟨le_rfl, by rw [List.length_cons]; omega⟩, Nat.sub_self]
        simp [upsertEmbedding, EmbeddingRow.content]
      · have hother : (upsertEmbedding hashText config source rows (n, chunk))[ord]? =
            rows[ord]? := Table.lookup_insert_ne _ _ hord
        rw [hother]
        by_cases hin : n + 1 ≤ ord ∧ ord < n + 1 + chunks.length
        · rw [if_pos hin, if_pos ⟨by omega, by rw [List.length_cons]; omega⟩,
            show ord - n = (ord - (n + 1)) + 1 by omega, List.getElem?_cons_succ]
        · rw [if_neg hin, if_neg (by rw [List.length_cons]; omega)]

theorem chunksOf_writeChunks (source : EmbeddingSource) (rows : Table Nat EmbeddingRow) :
    ChunksOf hashText config source.text (writeChunks hashText config source rows) := by
  intro ord
  rw [writeChunks, Std.ExtTreeMap.getElem?_filter']
  have hupserts := lookup_upserts hashText config source
    (chunks config source) 0 rows ord
  by_cases hord : ord < (chunks config source).length
  · rw [if_pos ⟨Nat.zero_le _, by omega⟩, Nat.sub_zero] at hupserts
    have hkept (o : Option EmbeddingRow) :
        o.filter (fun _ => decide (ord < (chunks config source).length)) = o := by
      cases o <;> simp [hord]
    rw [hkept]
    exact hupserts
  · have hdropped (o : Option EmbeddingRow) :
        o.filter (fun _ => decide (ord < (chunks config source).length)) = none := by
      cases o <;> simp [hord]
    rw [hdropped, show (chunkText source.text config.embeddingMaxChars
      config.embeddingChunkMax)[ord]? = none from
        List.getElem?_eq_none (Nat.le_of_not_lt hord)]
    rfl

theorem ChunksOf.lookup_none (h : ChunksOf hashText config source.text rows)
    (hblank : chunks config source = []) : rows = ∅ := by
  refine Table.ext fun ord => ?_
  have hord := h ord
  rw [show chunkText source.text config.embeddingMaxChars config.embeddingChunkMax = [] from hblank]
    at hord
  simpa using hord

/-- Chunks of a text that has some pass for a current embedding. -/
theorem ChunksOf.hasCurrentEmbedding {contentHash : String}
    (h : ChunksOf hashText config source.text (i.embeddings key))
    (hnonblank : chunks config source ≠ []) (hhash : contentHash = hashText source.text) :
    i.hasCurrentEmbedding config key contentHash = true := by
  obtain ⟨chunk, rest, hchunks⟩ := List.exists_cons_of_ne_nil hnonblank
  have hzero := h 0
  rw [show chunkText source.text config.embeddingMaxChars config.embeddingChunkMax = chunk :: rest
    from hchunks, List.getElem?_cons_zero, Option.map_some] at hzero
  obtain ⟨row, hrow, hcontent⟩ := Option.map_eq_some_iff.mp hzero
  simp only [EmbeddingRow.content, Prod.mk.injEq] at hcontent
  refine List.any_eq_true.mpr
    ⟨(0, row), Std.ExtTreeMap.mem_toList_iff_getElem?_eq_some.mpr hrow, ?_⟩
  rw [hhash]
  exact decide_eq_true ⟨hcontent.2.2, hcontent.2.1⟩

/-! ## Transactions -/

/-- The generation of a row is that of the source before, if it has any. -/
def KeepsGeneration (i : Indexer) (key : SourceKey) (row : SourceRow) : Prop :=
  row.lastSeenGeneration = none ∨
    ∃ old, i.sources key = some old ∧ row.lastSeenGeneration = old.lastSeenGeneration

/-- What a transaction may leave of a source: what it was, or a row that it has written. -/
def Through (i : Indexer) (stamp : Nat) (key : SourceKey) (row : SourceRow)
    (rows : Table Nat EmbeddingRow) : Prop :=
  (i.sources key = some row ∧ rows = i.embeddings key) ∨
    (row.updatedAt = stamp ∧ KeepsGeneration i key row ∧
      (row.indexStatus = .pending ∨ row.deletedAt ≠ none))

theorem keepsGeneration_bind (i : Indexer) (key : SourceKey)
    (h : row.lastSeenGeneration = (i.sources key).bind (·.lastSeenGeneration)) :
    KeepsGeneration i key row := by
  cases hold : i.sources key with
  | none =>
      rw [hold] at h
      exact .inl h
  | some old =>
      rw [hold] at h
      exact .inr ⟨old, hold, h⟩

theorem through_execute {stamp : Nat} {statement : Statement}
    (hrow : (execute stamp i statement).sources key = some row) :
    Through i stamp key row ((execute stamp i statement).embeddings key) := by
  cases statement with
  | tables store => exact .inl ⟨hrow, rfl⟩
  | enqueueEvent key' kind contentHash =>
      simp only [execute, enqueueEvent, mark, putSource, Function.update_apply] at hrow ⊢
      split at hrow
      · rename_i hkey
        subst hkey
        cases hrow
        exact .inr ⟨rfl, keepsGeneration_bind i key rfl, .inl rfl⟩
      · exact .inl ⟨hrow, rfl⟩
  | upsertOperation key' kind contentHash =>
      simp only [execute, upsertOperation] at hrow ⊢
      split at hrow
      · rename_i hsame
        rw [if_pos hsame]
        exact .inl ⟨hrow, rfl⟩
      · rename_i hsame
        rw [if_neg hsame]
        simp only [mark, putSource, Function.update_apply] at hrow ⊢
        split at hrow
        · rename_i hkey
          subst hkey
          cases hrow
          exact .inr ⟨rfl, keepsGeneration_bind i key rfl, .inl rfl⟩
        · rename_i hkey
          exact .inl ⟨hrow, if_neg hkey⟩
  | enqueueDigest key' repo contentHash =>
      simp only [execute, enqueueDigest, mark, putSource, Function.update_apply] at hrow ⊢
      split at hrow
      · cases hrow
        exact .inr ⟨rfl, .inl rfl, .inl rfl⟩
      · exact .inl ⟨hrow, rfl⟩
  | markDeleted key' =>
      simp only [execute, markSourcesDeleted] at hrow ⊢
      split at hrow
      · obtain ⟨old, hold, rfl⟩ := Option.map_eq_some_iff.mp hrow
        exact .inr ⟨rfl, .inr ⟨old, hold, rfl⟩, .inr (Option.some_ne_none _)⟩
      · rename_i hkey
        exact .inl ⟨hrow, if_neg hkey⟩
  | removeSession session =>
      simp only [execute, removeSession] at hrow ⊢
      split at hrow
      · cases hrow
      · rename_i hsession
        exact .inl ⟨hrow, if_neg hsession⟩

theorem through_transaction {stamp : Nat} (statements : List Statement) (i : Indexer)
    (hrow : (statements.foldl (execute stamp) i).sources key = some row) :
    Through i stamp key row ((statements.foldl (execute stamp) i).embeddings key) := by
  induction statements generalizing i with
  | nil => exact .inl ⟨hrow, rfl⟩
  | cons statement statements ih =>
      rw [List.foldl_cons] at hrow ⊢
      rcases ih _ hrow with ⟨hkept, hrows⟩ | ⟨hstamp, hgeneration, hopen⟩
      · rw [hrows]
        exact through_execute hkept
      · refine .inr ⟨hstamp, ?_, hopen⟩
        rcases hgeneration with hnone | ⟨old, hold, hgeneration⟩
        · exact .inl hnone
        · rcases through_execute hold with ⟨hkept, -⟩ | ⟨-, hearlier, -⟩
          · exact .inr ⟨old, hkept, hgeneration⟩
          · rcases hearlier with hnone | ⟨older, holder, hsame⟩
            · exact .inl (hgeneration.trans hnone)
            · exact .inr ⟨older, holder, hgeneration.trans hsame⟩

/-! ## Steps -/

def seenRow (hashText : String → String) (config : Config) (i : Indexer)
    (source : EmbeddingSource) (run : BackfillRun) : SourceRow :=
  { toColumns := source.toColumns
    contentHash := hashText source.text
    lastSeenGeneration := some run.generation
    indexStatus := if i.shouldPending hashText config source run.force then .pending else .indexed
    deletedAt := none
    updatedAt := i.now }

def deletedRow (stamp : Nat) (row : SourceRow) : SourceRow :=
  { row with indexStatus := .deleted, deletedAt := some stamp, updatedAt := stamp }

/-- What a pass has written for a source. -/
structure IndexedRow (hashText : String → String) (config : Config) (i : Indexer)
    (source : EmbeddingSource) (row : SourceRow) (rows : Table Nat EmbeddingRow) : Prop where
  columns : row.toColumns = source.toColumns
  contentHash : row.contentHash = hashText source.text
  status : row.indexStatus = .indexed
  live : row.deletedAt = none
  stamp : row.updatedAt = i.now
  chunks : ChunksOf hashText config source.text rows

/-- How a step may leave the row of a source, and its embeddings. -/
inductive RowStep (hashText : String → String) (config : Config) (i : Indexer) (a : Action)
    (key : SourceKey) (row : SourceRow) (rows : Table Nat EmbeddingRow) : Prop
  | kept (hrow : i.sources key = some row) (hrows : rows = i.embeddings key)
  | written {began : Nat} {statements : List Statement} (ha : a = .transaction began statements)
      (hstamp : row.updatedAt ≤ i.now) (hgeneration : KeepsGeneration i key row)
      (hopen : row.indexStatus = .pending ∨ row.deletedAt ≠ none)
  | seen {r : RunId} {source : EmbeddingSource} {todo page : List EmbeddingSource} {marked : Nat}
      {short : Bool} {run : BackfillRun}
      (hwork : i.work = .page r (source :: todo) page marked short)
      (hrun : i.runs[r]? = some run) (hkey : source.sourceKey = key)
      (hrow : row = seenRow hashText config i source run) (hrows : rows = i.embeddings key)
  | stale {r : RunId} {run : BackfillRun} {old : SourceRow} (hwork : i.work = .closing r)
      (hrun : i.runs[r]? = some run) (hold : i.sources key = some old)
      (hstale : Indexer.stale run key old = true) (hrow : row = deletedRow i.now old)
  | missing {sources : List EmbeddingSource} {deleted : List SourceKey} {old : SourceRow}
      (hwork : i.work = .loading [] sources deleted) (hmem : key ∈ deleted)
      (hold : i.sources key = some old) (hrow : row = deletedRow i.now old)
  | failed {wrong : List SourceKey} (ha : a = .persist wrong) (hwrong : key ∈ wrong)
      (hgeneration : KeepsGeneration i key row) (hstatus : row.indexStatus = .failed)
      (hstamp : row.updatedAt = i.now)
  | indexed {sources : List EmbeddingSource} {source : EmbeddingSource}
      (hwork : i.work = .loaded sources) (hmem : source ∈ sources) (hkey : source.sourceKey = key)
      (hgeneration : KeepsGeneration i key row)
      (hindexed : IndexedRow hashText config i source row rows)

/-- What a pass leaves of a source. -/
theorem persist_row (wrong : List SourceKey) (sources : List EmbeddingSource) (i : Indexer)
    (hrow : (sources.foldl (persistSource hashText config wrong) i).sources key = some row) :
    (i.sources key = some row ∧
        (sources.foldl (persistSource hashText config wrong) i).embeddings key =
          i.embeddings key) ∨
      (KeepsGeneration i key row ∧
        ((key ∈ wrong ∧ row.indexStatus = .failed ∧ row.updatedAt = i.now) ∨
          ∃ source ∈ sources, source.sourceKey = key ∧ IndexedRow hashText config i source row
            ((sources.foldl (persistSource hashText config wrong) i).embeddings key))) := by
  induction sources generalizing i with
  | nil => exact .inl ⟨hrow, rfl⟩
  | cons source sources ih =>
      have hnow := (persistSource_frame hashText config wrong i source).1
      -- the first round, for whatever row it leaves
      have hfirst : ∀ row, (persistSource hashText config wrong i source).sources key = some row →
          (i.sources key = some row ∧
            (persistSource hashText config wrong i source).embeddings key = i.embeddings key) ∨
          (KeepsGeneration i key row ∧
            ((key ∈ wrong ∧ row.indexStatus = .failed ∧ row.updatedAt = i.now) ∨
              source.sourceKey = key ∧ IndexedRow hashText config i source row
                ((persistSource hashText config wrong i source).embeddings key))) := by
        intro row hrow
        unfold persistSource at hrow ⊢
        split at hrow
        · rename_i hwrong
          rw [if_pos hwrong]
          simp only [markSourceFailed, Function.update_apply] at hrow ⊢
          split at hrow
          · rename_i hkey
            obtain ⟨old, hold, rfl⟩ := Option.map_eq_some_iff.mp hrow
            exact .inr ⟨.inr ⟨old, hkey ▸ hold, rfl⟩, .inl ⟨hkey ▸ hwrong.1, rfl, rfl⟩⟩
          · exact .inl ⟨hrow, trivial⟩
        · rename_i hright
          rw [if_neg hright]
          simp only [markSourceIndexed, Function.update_apply] at hrow ⊢
          split at hrow
          · rename_i hkey
            obtain ⟨old, hold, rfl⟩ := Option.map_eq_some_iff.mp hrow
            refine .inr
              ⟨.inr ⟨old, hkey ▸ hold, rfl⟩, .inr ⟨hkey.symm, rfl, rfl, rfl, rfl, rfl, ?_⟩⟩
            rw [if_pos hkey]
            exact chunksOf_writeChunks source _
          · rename_i hkey
            exact .inl ⟨hrow, if_neg hkey⟩
      rw [List.foldl_cons] at hrow ⊢
      rcases ih _ hrow with ⟨hkept, hrows⟩ | ⟨hgeneration, hwritten⟩
      · rw [hrows]
        rcases hfirst row hkept with hsame | ⟨hgeneration, hfailed | ⟨hkey, hindexed⟩⟩
        · exact .inl hsame
        · exact .inr ⟨hgeneration, .inl hfailed⟩
        · exact .inr ⟨hgeneration, .inr ⟨source, List.mem_cons_self, hkey, hindexed⟩⟩
      · refine .inr ⟨?_, ?_⟩
        · rcases hgeneration with hnone | ⟨old, hold, hsame⟩
          · exact .inl hnone
          · rcases hfirst old hold with ⟨hkept, -⟩ | ⟨hearlier, -⟩
            · exact .inr ⟨old, hkept, hsame⟩
            · rcases hearlier with hnone | ⟨older, holder, hsame'⟩
              · exact .inl (hsame.trans hnone)
              · exact .inr ⟨older, holder, hsame.trans hsame'⟩
        · rcases hwritten with ⟨hwrong, hstatus, hstamp⟩ | ⟨source', hmem, hkey, hindexed⟩
          · exact .inl ⟨hwrong, hstatus, hstamp.trans hnow⟩
          · exact .inr ⟨source', List.mem_cons_of_mem _ hmem, hkey,
              { hindexed with stamp := hindexed.stamp.trans hnow }⟩

theorem rowStep (hact : i.act hashText config a = some j) (hrow : j.sources key = some row) :
    RowStep hashText config i a key row (j.embeddings key) := by
  cases a with
  | transaction began statements =>
      simp only [act] at hact
      split at hact
      · rename_i hbegan
        cases hact
        rcases through_transaction statements i hrow with ⟨hkept, hrows⟩ | ⟨hstamp, hgen, hopen⟩
        · exact .kept hkept hrows
        · exact .written rfl (hstamp ▸ hbegan) hgen hopen
      · cases hact
  | upsertSeen =>
      simp only [act] at hact
      split at hact
      · rename_i r source todo page marked short hwork
        obtain ⟨run, hrun, rfl⟩ := Option.map_eq_some_iff.mp hact
        simp only [upsertSourceSeen, mark, putSource, Function.update_apply] at hrow
        split at hrow
        · rename_i hkey
          exact .seen hwork hrun hkey.symm (Option.some.inj hrow).symm rfl
        · exact .kept hrow rfl
      · cases hact
  | deleteStale =>
      simp only [act] at hact
      split at hact
      · rename_i r hwork
        obtain ⟨run, hrun, rfl⟩ := Option.map_eq_some_iff.mp hact
        simp only [deleteStaleSources, markSourcesDeleted] at hrow
        split at hrow
        · rename_i hgone
          obtain ⟨old, hold, rfl⟩ := Option.map_eq_some_iff.mp hrow
          rw [hold] at hgone
          exact .stale hwork hrun hold hgone rfl
        · rename_i hgone
          exact .kept hrow (if_neg hgone)
      · cases hact
  | finishLoad =>
      simp only [act] at hact
      split at hact
      · rename_i sources deleted hwork
        cases hact
        simp only [markSourcesDeleted] at hrow
        split at hrow
        · rename_i hgone
          obtain ⟨old, hold, rfl⟩ := Option.map_eq_some_iff.mp hrow
          exact .missing hwork (of_decide_eq_true hgone) hold rfl
        · rename_i hgone
          exact .kept hrow (if_neg hgone)
      · cases hact
  | persist wrong =>
      simp only [act] at hact
      split at hact
      · rename_i sources hwork
        cases hact
        rcases persist_row wrong sources i hrow with ⟨hkept, hrows⟩ | ⟨hgen, hwritten⟩
        · exact .kept hkept hrows
        · rcases hwritten with ⟨hwrong, hstatus, hstamp⟩ | ⟨source, hmem, hkey, hindexed⟩
          · exact .failed rfl hwrong hgen hstatus hstamp
          · exact .indexed hwork hmem hkey hgen hindexed
      · cases hact
  | reindex repo session =>
      simp only [act] at hact
      split at hact <;> cases hact
      exact .kept hrow rfl
  | loadPage r limit =>
      simp only [act] at hact
      split at hact
      · split at hact <;> cases hact
        exact .kept hrow rfl
      · cases hact
  | saveCursor | complete =>
      simp only [act] at hact
      split at hact <;> cases hact
      exact .kept hrow rfl
  | failRun =>
      simp only [act] at hact
      split at hact <;> cases hact <;> exact .kept hrow rfl
  | abandon =>
      cases hact
      exact .kept hrow rfl
  | beginPass keys =>
      simp only [act] at hact
      split at hact
      · split at hact <;> cases hact
        exact .kept hrow rfl
      · cases hact
  | loadSource =>
      simp only [act] at hact
      split at hact
      · split at hact <;> cases hact <;> exact .kept hrow rfl
      · cases hact

/-! ## Runs -/

/-- A run is what it was, but for its cursor, its counts and its status. -/
structure SameRun (run run' : BackfillRun) : Prop where
  generation : run'.generation = run.generation
  sourceFamily : run'.sourceFamily = run.sourceFamily
  scopeRepo : run'.scopeRepo = run.scopeRepo
  scopeSessionUuid : run'.scopeSessionUuid = run.scopeSessionUuid
  force : run'.force = run.force
  startedAt : run'.startedAt = run.startedAt

theorem SameRun.refl (run : BackfillRun) : SameRun run run := ⟨rfl, rfl, rfl, rfl, rfl, rfl⟩

/-- How a step may change the runs: one is complete only after its stale sources are deleted. -/
inductive RunStep (i : Indexer) (a : Action) (r : RunId) (run' : BackfillRun) : Prop
  | kept {run : BackfillRun} (hrun : i.runs[r]? = some run) (hsame : SameRun run run')
      (hcomplete : run'.status = .complete → run.status = .complete ∨ i.work = .swept r)
  | started {repo : Option String} {session : Option SessionUuid} (ha : a = .reindex repo session)
      (hgeneration : run'.generation = i.generation + 1) (hstart : run'.startedAt = i.now)
      (hforce : run'.force = false) (hrepo : run'.scopeRepo = repo)
      (hsession : run'.scopeSessionUuid = session) (hstatus : run'.status = .running)

theorem runStep_updateRun {r r₀ : RunId} {f : BackfillRun → BackfillRun} {run' : BackfillRun}
    (hrun' : (i.updateRun r₀ f).runs[r]? = some run') (hf : ∀ run, SameRun run (f run))
    (hstatus : ∀ run, (f run).status = .complete → run.status = .complete ∨ i.work = .swept r₀) :
    RunStep i a r run' := by
  by_cases hr : r₀ = r
  · subst hr
    rw [updateRun_self] at hrun'
    obtain ⟨run, hrun, rfl⟩ := Option.map_eq_some_iff.mp hrun'
    exact .kept hrun (hf run) (hstatus run)
  · rw [updateRun_ne f hr] at hrun'
    exact .kept hrun' (.refl run') .inl

theorem runStep (hact : i.act hashText config a = some j) {r : RunId} {run' : BackfillRun}
    (hrun' : j.runs[r]? = some run') : RunStep i a r run' := by
  cases a with
  | transaction began statements =>
      simp only [act] at hact
      split at hact <;> cases hact
      rw [(transaction_frame began statements i).1] at hrun'
      exact .kept hrun' (.refl run') .inl
  | reindex repo session =>
      simp only [act] at hact
      split at hact <;> cases hact
      by_cases hr : r < i.runs.length
      · rw [startBackfillRuns, List.getElem?_append_left hr] at hrun'
        exact .kept hrun' (.refl run') .inl
      · rw [startBackfillRuns, List.getElem?_append_right (Nat.le_of_not_lt hr)] at hrun'
        obtain ⟨f, -, rfl⟩ := List.mem_map.mp (List.mem_of_getElem? hrun')
        exact .started rfl rfl rfl rfl rfl rfl rfl
  | saveCursor =>
      simp only [act] at hact
      split at hact <;> cases hact
      exact runStep_updateRun hrun' (fun _ => ⟨rfl, rfl, rfl, rfl, rfl, rfl⟩) fun _ => .inl
  | complete =>
      simp only [act] at hact
      split at hact
      · rename_i hwork
        cases hact
        exact runStep_updateRun hrun' (fun _ => ⟨rfl, rfl, rfl, rfl, rfl, rfl⟩) fun _ _ =>
          .inr hwork
      · cases hact
  | failRun =>
      simp only [act] at hact
      split at hact <;> cases hact <;>
        exact runStep_updateRun hrun' (fun _ => ⟨rfl, rfl, rfl, rfl, rfl, rfl⟩) fun _ => by rintro ⟨⟩
  | loadPage r' limit =>
      simp only [act] at hact
      split at hact
      · split at hact <;> cases hact
        exact .kept hrun' (.refl run') .inl
      · cases hact
  | upsertSeen | deleteStale =>
      simp only [act] at hact
      split at hact
      · obtain ⟨run, -, rfl⟩ := Option.map_eq_some_iff.mp hact
        exact .kept hrun' (.refl run') .inl
      · cases hact
  | abandon =>
      cases hact
      exact .kept hrun' (.refl run') .inl
  | beginPass keys =>
      simp only [act] at hact
      split at hact
      · split at hact <;> cases hact
        exact .kept hrun' (.refl run') .inl
      · cases hact
  | loadSource =>
      simp only [act] at hact
      split at hact
      · split at hact <;> cases hact <;> exact .kept hrun' (.refl run') .inl
      · cases hact
  | finishLoad =>
      simp only [act] at hact
      split at hact <;> cases hact
      exact .kept hrun' (.refl run') .inl
  | persist wrong =>
      simp only [act] at hact
      split at hact
      · rename_i sources hwork
        cases hact
        have hruns := (persist_frame hashText config wrong sources i).2.2.1
        exact .kept (hruns ▸ hrun') (.refl run') .inl
      · cases hact

/-- What a step changes besides. -/
structure Frame (i : Indexer) (a : Action) (j : Indexer) : Prop where
  now : j.now = i.now
  generation : i.generation ≤ j.generation
  marks : ∀ m ∈ i.marks, m ∈ j.marks
  started : ∀ repo session, a = .reindex repo session → j.generation = i.generation + 1
  store : (∀ began statements, a ≠ .transaction began statements) → j.store = i.store

theorem frame_generation (statements : List Statement) (stamp : Nat) (i : Indexer) :
    (statements.foldl (execute stamp) i).generation = i.generation := by
  induction statements generalizing i with
  | nil => rfl
  | cons statement statements ih =>
      rw [List.foldl_cons, ih]
      cases statement with
      | upsertOperation key kind contentHash =>
          simp only [execute, upsertOperation]
          split <;> rfl
      | _ => rfl

theorem frame_persist_generation (wrong : List SourceKey) (sources : List EmbeddingSource)
    (i : Indexer) :
    (sources.foldl (persistSource hashText config wrong) i).generation = i.generation := by
  induction sources generalizing i with
  | nil => rfl
  | cons source sources ih =>
      rw [List.foldl_cons, ih]
      unfold persistSource
      split <;> rfl

theorem frame (hact : i.act hashText config a = some j) : Frame i a j := by
  cases a with
  | transaction began statements =>
      simp only [act] at hact
      split at hact <;> cases hact
      obtain ⟨-, -, hnow, hmarks⟩ := transaction_frame began statements i
      exact ⟨hnow, (frame_generation statements began i).ge, hmarks, by rintro _ _ ⟨⟩,
        fun h => absurd rfl (h began statements)⟩
  | persist wrong =>
      simp only [act] at hact
      split at hact
      · rename_i sources hwork
        cases hact
        obtain ⟨hstore, hnow, -, hmarks, -⟩ :=
          persist_frame hashText config wrong sources i
        exact ⟨hnow, (frame_persist_generation wrong sources i).ge, fun m hm => hmarks ▸ hm, by rintro _ _ ⟨⟩,
          fun _ => hstore⟩
      · cases hact
  | reindex repo session =>
      simp only [act] at hact
      split at hact <;> cases hact
      exact ⟨rfl, Nat.le_succ _, fun _ => id, fun _ _ _ => rfl, fun _ => rfl⟩
  | upsertSeen =>
      simp only [act] at hact
      split at hact
      · obtain ⟨run, -, rfl⟩ := Option.map_eq_some_iff.mp hact
        exact ⟨rfl, le_rfl, fun _ => List.mem_cons_of_mem _, by rintro _ _ ⟨⟩, fun _ => rfl⟩
      · cases hact
  | deleteStale =>
      simp only [act] at hact
      split at hact
      · obtain ⟨run, -, rfl⟩ := Option.map_eq_some_iff.mp hact
        exact ⟨rfl, le_rfl, fun _ => id, by rintro _ _ ⟨⟩, fun _ => rfl⟩
      · cases hact
  | loadPage r limit =>
      simp only [act] at hact
      split at hact
      · split at hact <;> cases hact
        exact ⟨rfl, le_rfl, fun _ => id, by rintro _ _ ⟨⟩, fun _ => rfl⟩
      · cases hact
  | saveCursor | complete | failRun | finishLoad =>
      simp only [act] at hact
      split at hact <;> cases hact <;> exact ⟨rfl, le_rfl, fun _ => id, by rintro _ _ ⟨⟩, fun _ => rfl⟩
  | abandon =>
      cases hact
      exact ⟨rfl, le_rfl, fun _ => id, by rintro _ _ ⟨⟩, fun _ => rfl⟩
  | beginPass keys =>
      simp only [act] at hact
      split at hact
      · split at hact <;> cases hact
        exact ⟨rfl, le_rfl, fun _ => id, by rintro _ _ ⟨⟩, fun _ => rfl⟩
      · cases hact
  | loadSource =>
      simp only [act] at hact
      split at hact
      · split at hact <;> cases hact <;> exact ⟨rfl, le_rfl, fun _ => id, by rintro _ _ ⟨⟩, fun _ => rfl⟩
      · cases hact

/-! ## Marks and rows that stay -/

/-- How a step may add a mark: by a transaction, or for the source that a run sees. -/
inductive MarkStep (hashText : String → String) (config : Config) (i : Indexer) (a : Action)
    (j : Indexer) (m : Mark) : Prop
  | kept (hmark : m ∈ i.marks)
  | written {began : Nat} {statements : List Statement} (ha : a = .transaction began statements)
      (htime : m.time = i.now)
  | seen {r : RunId} {source : EmbeddingSource} {todo page : List EmbeddingSource} {marked : Nat}
      {short : Bool} {run : BackfillRun}
      (hwork : i.work = .page r (source :: todo) page marked short)
      (hrow : j.sources source.sourceKey = some (seenRow hashText config i source run))
      (hmark : m = ⟨source.sourceKey, i.now⟩)

theorem marks_execute (stamp : Nat) (i : Indexer) (statement : Statement) {m : Mark}
    (h : m ∈ (execute stamp i statement).marks) : m ∈ i.marks ∨ m.time = i.now := by
  have hmark : ∀ key, m ∈ (⟨key, i.now⟩ : Mark) :: i.marks → m ∈ i.marks ∨ m.time = i.now := by
    intro key hm
    rcases List.mem_cons.mp hm with hnew | hold
    · exact .inr (congrArg Mark.time hnew)
    · exact .inl hold
  cases statement with
  | enqueueEvent key kind contentHash => exact hmark key h
  | upsertOperation key kind contentHash =>
      simp only [execute, upsertOperation] at h
      split at h
      · exact .inl h
      · exact hmark key h
  | enqueueDigest key repo contentHash => exact hmark key h
  | tables | markDeleted | removeSession => exact .inl h

theorem marks_transaction (stamp : Nat) (statements : List Statement) (i : Indexer) {m : Mark}
    (h : m ∈ (statements.foldl (execute stamp) i).marks) : m ∈ i.marks ∨ m.time = i.now := by
  induction statements generalizing i with
  | nil => exact .inl h
  | cons statement statements ih =>
      rw [List.foldl_cons] at h
      rcases ih _ h with hold | hnow
      · exact marks_execute stamp i statement hold
      · exact .inr (hnow.trans (execute_frame stamp i statement).2.2.1)

theorem markStep (hact : i.act hashText config a = some j) {m : Mark} (hm : m ∈ j.marks) :
    MarkStep hashText config i a j m := by
  cases a with
  | transaction began statements =>
      simp only [act] at hact
      split at hact <;> cases hact
      rcases marks_transaction began statements i hm with hold | hnow
      · exact .kept hold
      · exact .written rfl hnow
  | upsertSeen =>
      simp only [act] at hact
      split at hact
      · rename_i hwork
        obtain ⟨run, -, rfl⟩ := Option.map_eq_some_iff.mp hact
        rcases List.mem_cons.mp hm with hnew | hold
        · exact .seen hwork (Function.update_self ..) hnew
        · exact .kept hold
      · cases hact
  | persist wrong =>
      simp only [act] at hact
      split at hact
      · rename_i sources hwork
        cases hact
        obtain ⟨-, -, -, hmarks, -⟩ :=
          persist_frame hashText config wrong sources i
        exact .kept (hmarks ▸ hm)
      · cases hact
  | deleteStale =>
      simp only [act] at hact
      split at hact
      · obtain ⟨run, -, rfl⟩ := Option.map_eq_some_iff.mp hact
        exact .kept hm
      · cases hact
  | loadPage r limit | beginPass keys | loadSource =>
      simp only [act] at hact
      split at hact
      · split at hact <;> cases hact <;> exact .kept hm
      · cases hact
  | reindex repo session | saveCursor | complete | failRun | finishLoad =>
      simp only [act] at hact
      split at hact <;> cases hact <;> exact .kept hm
  | abandon =>
      cases hact
      exact .kept hm

theorem isSome_markSourcesDeleted (i : Indexer) (stamp : Nat) (gone : SourceKey → Bool)
    (key : SourceKey) :
    ((i.markSourcesDeleted stamp gone).sources key).isSome = (i.sources key).isSome := by
  simp only [markSourcesDeleted]
  split
  · exact Option.isSome_map
  · rfl

theorem isSome_persist (wrong : List SourceKey) (sources : List EmbeddingSource) (i : Indexer)
    (key : SourceKey) :
    ((sources.foldl (persistSource hashText config wrong) i).sources key).isSome =
      (i.sources key).isSome := by
  induction sources generalizing i with
  | nil => rfl
  | cons source sources ih =>
      rw [List.foldl_cons, ih]
      unfold persistSource
      split <;>
      · simp only [markSourceFailed, markSourceIndexed, Function.update_apply]
        split
        · rename_i hkey
          rw [Option.isSome_map, hkey]
        · rfl

/-- A step removes no row, other than a transaction. -/
theorem row_stays (hact : i.act hashText config a = some j)
    (hother : ∀ began statements, a ≠ .transaction began statements)
    (h : (i.sources key).isSome = true) : ∃ row, j.sources key = some row := by
  refine Option.isSome_iff_exists.mp ?_
  cases a with
  | transaction began statements => exact absurd rfl (hother began statements)
  | upsertSeen =>
      simp only [act] at hact
      split at hact
      · obtain ⟨run, -, rfl⟩ := Option.map_eq_some_iff.mp hact
        simp only [upsertSourceSeen, mark, putSource, Function.update_apply]
        split
        · rfl
        · exact h
      · cases hact
  | persist wrong =>
      simp only [act] at hact
      split at hact
      · cases hact
        exact (isSome_persist wrong _ i key).trans h
      · cases hact
  | deleteStale =>
      simp only [act] at hact
      split at hact
      · obtain ⟨run, -, rfl⟩ := Option.map_eq_some_iff.mp hact
        exact (isSome_markSourcesDeleted i i.now (fun key => (i.sources key).any (stale run key))
          key).trans h
      · cases hact
  | finishLoad =>
      simp only [act] at hact
      split at hact
      · rename_i sources deleted hwork
        cases hact
        exact (isSome_markSourcesDeleted i i.now (fun key => key ∈ deleted) key).trans h
      · cases hact
  | loadPage r limit | beginPass keys | loadSource =>
      simp only [act] at hact
      split at hact
      · split at hact <;> cases hact <;> exact h
      · cases hact
  | reindex repo session | saveCursor | complete | failRun =>
      simp only [act] at hact
      split at hact <;> cases hact <;> exact h
  | abandon =>
      cases hact
      exact h

/-- Only the deletion of a run's stale sources ends in `swept`. -/
theorem swept_act {r : RunId} (hact : i.act hashText config a = some j)
    (hother : ∀ began statements, a ≠ .transaction began statements) (hwork : j.work = .swept r) :
    i.work = .closing r ∧
      ∃ run, i.runs[r]? = some run ∧ j = { i.deleteStaleSources run with work := .swept r } := by
  cases a with
  | transaction began statements => exact absurd rfl (hother began statements)
  | deleteStale =>
      simp only [act] at hact
      split at hact
      · rename_i r' hclosing
        obtain ⟨run, hrun, rfl⟩ := Option.map_eq_some_iff.mp hact
        obtain rfl : r' = r := Work.swept.inj hwork
        exact ⟨hclosing, run, hrun, rfl⟩
      · cases hact
  | reindex repo session =>
      simp only [act] at hact
      split at hact
      · rename_i hidle
        cases hact
        cases hidle.symm.trans hwork
      · cases hact
  | saveCursor =>
      simp only [act] at hact
      split at hact <;> cases hact
      dsimp only at hwork
      split at hwork <;> cases hwork
  | upsertSeen =>
      simp only [act] at hact
      split at hact
      · obtain ⟨run, -, rfl⟩ := Option.map_eq_some_iff.mp hact
        cases hwork
      · cases hact
  | loadPage r limit | beginPass keys | loadSource =>
      simp only [act] at hact
      split at hact
      · split at hact <;> cases hact <;> cases hwork
      · cases hact
  | complete | failRun | finishLoad | persist wrong =>
      simp only [act] at hact
      split at hact <;> cases hact <;> cases hwork
  | abandon =>
      cases hact
      cases hwork

/-! ## What holds of every index -/

/-- Stamps and generations lie in the past, no run is forced, and an indexed source has exactly the
chunks of a text with its hash. -/
structure Sound (hashText : String → String) (config : Config) (i : Indexer) : Prop where
  rows : ∀ key row, i.sources key = some row →
    row.updatedAt < i.now ∧ row.lastSeenGeneration.getD 0 ≤ i.generation
  runs : ∀ (r : RunId) (run : BackfillRun), i.runs[r]? = some run →
    run.startedAt < i.now ∧ run.generation ≤ i.generation ∧ run.force = false
  chunks : ∀ key row, i.sources key = some row → row.indexStatus = .indexed →
    row.deletedAt = none →
      ∃ text, hashText text = row.contentHash ∧ ChunksOf hashText config text (i.embeddings key)

theorem KeepsGeneration.le (h : KeepsGeneration i key row) (hi : i.Sound hashText config) :
    row.lastSeenGeneration.getD 0 ≤ i.generation := by
  rcases h with hnone | ⟨old, hold, hsame⟩
  · rw [hnone]
    exact Nat.zero_le _
  · rw [hsame]
    exact (hi.rows key old hold).2

/-- A source that is indexed after `upsert_source_seen` was so before. -/
theorem indexed_of_seenRow {run : BackfillRun}
    (h : (seenRow hashText config i source run).indexStatus = .indexed) :
    ∃ old, i.sources source.sourceKey = some old ∧ old.indexStatus = .indexed ∧
      old.deletedAt = none ∧ old.contentHash = hashText source.text ∧
      i.hasCurrentEmbedding config source.sourceKey old.contentHash = true := by
  have hpending : i.shouldPending hashText config source run.force = false := by
    by_contra htrue
    simp [seenRow, Bool.not_eq_false _ ▸ htrue] at h
  unfold shouldPending at hpending
  split at hpending
  · cases hpending
  · rename_i old hold
    simp only [Bool.or_eq_false_iff, Bool.not_eq_false', decide_eq_false_iff_not, not_not,
      Option.isSome_eq_false_iff, Option.isNone_iff_eq_none] at hpending
    exact ⟨old, hold, hpending.1.1.2, hpending.1.1.1.2, hpending.1.2, hpending.2⟩

theorem Sound.step (h : i.Sound hashText config) (hstep : i.step hashText config a = some k) :
    k.Sound hashText config := by
  obtain ⟨j, hact, rfl⟩ := Option.map_eq_some_iff.mp hstep
  have hframe := frame hact
  refine ⟨fun key row hrow => ?_, fun r run hrun => ?_, fun key row hrow hindexed hlive => ?_⟩
  · have hnow : ∀ n, n ≤ i.now → n < j.now + 1 := fun n hn => by
      rw [hframe.now]
      exact Nat.lt_succ_of_le hn
    have hpast : row.updatedAt ≤ i.now ∧ row.lastSeenGeneration.getD 0 ≤ i.generation := by
      cases rowStep hact hrow with
      | kept hold _ => exact ⟨(h.rows key row hold).1.le, (h.rows key row hold).2⟩
      | written _ hstamp hgeneration _ => exact ⟨hstamp, hgeneration.le h⟩
      | seen _ hrun _ hrow _ =>
          subst hrow
          exact ⟨le_rfl, (h.runs _ _ hrun).2.1⟩
      | stale _ _ hold _ hrow =>
          subst hrow
          exact ⟨le_rfl, (h.rows key _ hold).2⟩
      | missing _ _ hold hrow =>
          subst hrow
          exact ⟨le_rfl, (h.rows key _ hold).2⟩
      | failed _ _ hgeneration _ hstamp => exact ⟨hstamp.le, hgeneration.le h⟩
      | indexed _ _ _ hgeneration hindexed => exact ⟨hindexed.stamp.le, hgeneration.le h⟩
    exact ⟨hnow _ hpast.1, hpast.2.trans hframe.generation⟩
  · cases runStep hact hrun with
    | kept hold hsame _ =>
        obtain ⟨hstart, hgeneration, hforce⟩ := h.runs r _ hold
        rw [hsame.startedAt, hsame.generation, hsame.force]
        refine ⟨?_, hgeneration.trans hframe.generation, hforce⟩
        rw [show ({ j with now := j.now + 1 } : Indexer).now = i.now + 1 from
          congrArg (· + 1) hframe.now]
        exact hstart.trans (Nat.lt_succ_self _)
    | started ha hgeneration hstart hforce _ _ _ =>
        refine ⟨?_, ?_, hforce⟩
        · rw [hstart]
          exact hframe.now ▸ Nat.lt_succ_self _
        · exact (hgeneration.trans (hframe.started _ _ ha).symm).le
  · cases rowStep hact hrow with
    | kept hold hrows =>
        obtain ⟨text, hhash, hchunks⟩ := h.chunks key row hold hindexed hlive
        exact ⟨text, hhash, hrows ▸ hchunks⟩
    | written _ _ _ hopen =>
        rcases hopen with hpending | hdeleted
        · rw [hpending] at hindexed
          cases hindexed
        · exact absurd hlive hdeleted
    | seen _ _ hkey hrow hrows =>
        subst hrow
        obtain ⟨old, hold, hindexed, hlive, hhash, -⟩ := indexed_of_seenRow hindexed
        rw [hkey] at hold
        obtain ⟨text, htext, hchunks⟩ := h.chunks key old hold hindexed hlive
        exact ⟨text, htext.trans hhash, hrows ▸ hchunks⟩
    | stale _ _ _ _ hrow =>
        subst hrow
        cases hlive
    | missing _ _ _ hrow =>
        subst hrow
        cases hlive
    | failed _ _ _ hstatus _ =>
        rw [hstatus] at hindexed
        cases hindexed
    | indexed _ _ _ _ hwritten => exact ⟨_, hwritten.contentHash.symm, hwritten.chunks⟩

end Indexer

end Sulion.Retrieval.Sources
