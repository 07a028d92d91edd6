import Sulion.Retrieval.Indexer

set_option autoImplicit false

/-! # What a backfill run visits and deletes

A run reads its sources page by page behind a cursor, marks each as seen, and deletes what is
stale in the end. `backfill_keeps_sources` says that every source in its scope is seen or enqueued
by then, and that what it deletes yields no source any more. It needs two things of the rest of the
system: what comes back behind the cursor is enqueued by a transaction that began after the run, and
a repository's sources are stored under its name.
-/

namespace Sulion.Retrieval.Sources

open Transition

/-! ## The order of the sources -/

theorem nodup_map_key {κ ρ : Type} [Ord κ] [Std.TransOrd κ] [Std.LawfulEqOrd κ] (t : Table κ ρ)
    {g : κ → Position} (hg : Function.Injective g) : (t.toList.map fun row => g row.1).Nodup := by
  have h := (Table.nodup_keys t).map hg
  rwa [List.map_map] at h

/-- Within a family different sources stand at different places. -/
theorem nodup_positions (store : Store) (f : SourceFamily) :
    ((store.keys f).map position).Nodup := by
  have hthree : Function.Injective fun k : SessionUuid × Int × Int =>
      (((toLex (k.1, toLex (k.2.1, k.2.2)) : SessionUuid ×ₗ Int ×ₗ Int)) : Position) := by
    intro a b hab
    simpa [Prod.ext_iff] using WithBot.coe_injective hab
  have htwo : Function.Injective fun k : SessionUuid × Int =>
      (((toLex (k.1, toLex (k.2, (0 : Int))) : SessionUuid ×ₗ Int ×ₗ Int)) : Position) := by
    intro a b hab
    simpa [Prod.ext_iff] using WithBot.coe_injective hab
  cases f <;> rw [Store.keys, List.map_map]
  · exact nodup_map_key store.blocks hthree
  · exact nodup_map_key store.operations hthree
  · exact nodup_map_key store.operations hthree
  · exact nodup_map_key store.turns htwo

theorem sublist_map_filterMap {α β : Type} {g : α → Option β} {h : β → α}
    (hgh : ∀ x y, g x = some y → h y = x) (l : List α) : ((l.filterMap g).map h).Sublist l := by
  induction l with
  | nil => exact .slnil
  | cons x l ih =>
      cases hx : g x with
      | none =>
          rw [List.filterMap_cons_none hx]
          exact ih.cons x
      | some y =>
          rw [List.filterMap_cons_some hx, List.map_cons, hgh x y hx]
          exact ih.cons_cons x

namespace Indexer

variable {hashText : String → String} {config : Config} {i j : Indexer} {r : RunId}
  {run run' : BackfillRun} {key : SourceKey} {store : Store} {source : EmbeddingSource}
  {since : Nat}

theorem sorted_sortedSources (store : Store) (run : BackfillRun) :
    (sortedSources store run).Pairwise fun a b =>
      position a.sourceKey < position b.sourceKey := by
  refine Paging.pairwise_sorted (f := fun source : EmbeddingSource => position source.sourceKey) ?_
  have hsub : ((store.familySources run.sourceFamily).map (·.sourceKey)).Sublist
      (store.keys run.sourceFamily) :=
    sublist_map_filterMap (fun _ _ => Store.sourceKey_of_currentSource) _
  have hkeys := (hsub.map position).nodup (nodup_positions store run.sourceFamily)
  rw [List.map_map] at hkeys
  exact hkeys.sublist (List.filter_sublist.map _)

/-- The run's family and scope have this source now. -/
def Covered (store : Store) (run : BackfillRun) (key : SourceKey) : Prop :=
  ∃ source, store.currentSource key = some source ∧ run.covers source = true

theorem mem_sortedSources : source ∈ sortedSources store run ↔
    store.currentSource source.sourceKey = some source ∧ run.covers source = true := by
  rw [sortedSources, List.mem_insertionSort, List.mem_filter, Store.mem_familySources]
  constructor
  · rintro ⟨⟨-, hsource⟩, hcovers⟩
    exact ⟨hsource, hcovers⟩
  · rintro ⟨hsource, hcovers⟩
    refine ⟨⟨?_, hsource⟩, hcovers⟩
    simp only [BackfillRun.covers, Bool.and_eq_true, decide_eq_true_eq] at hcovers
    exact hcovers.1.1

/-- **A page has every source behind the cursor**, up to its last one, or all if it is short. -/
theorem mem_loadBackfillSources {limit : Nat} (hcovered : Covered store run key)
    (hbehind : run.cursor < position key)
    (hreach : position key ≤ Paging.lastKey (fun source => position source.sourceKey) run.cursor
        (loadBackfillSources store run limit) ∨
      (loadBackfillSources store run limit).length < limit) :
    ∃ source ∈ loadBackfillSources store run limit, source.sourceKey = key := by
  obtain ⟨source, hsource, hcovers⟩ := hcovered
  have hkey := Store.sourceKey_of_currentSource hsource
  subst hkey
  exact ⟨source, Paging.mem_page (sorted_sortedSources store run)
    (mem_sortedSources.mpr ⟨hsource, hcovers⟩) hbehind hreach, rfl⟩

/-! ## What a run owes the sources it has passed -/

/-- How far the work under way is: the run will not come to the key any more. -/
def PassedInWork (r : RunId) (run : BackfillRun) (key : SourceKey) : Work → Prop
  | .page r' todo page _ short =>
      r' = r ∧ key ∉ todo.map (·.sourceKey) ∧
        (position key ≤ Paging.lastKey (fun source => position source.sourceKey) run.cursor page ∨
          short = true)
  | .closing r' | .swept r' => r' = r
  | _ => False

/-- The run will not come to the key any more. -/
def Passed (i : Indexer) (r : RunId) (run : BackfillRun) (key : SourceKey) : Prop :=
  position key ≤ run.cursor ∨ PassedInWork r run key i.work

/-- The source has been passed to `upsert_source_seen` or enqueued since the run started. -/
def Marked (i : Indexer) (run : BackfillRun) (key : SourceKey) : Prop :=
  ∃ m ∈ i.marks, m.key = key ∧ run.startedAt ≤ m.time

/-- The stamp of the source's row is not from before the run. -/
def Fresh (i : Indexer) (run : BackfillRun) (key : SourceKey) : Prop :=
  ∀ row, i.sources key = some row → run.startedAt ≤ row.updatedAt

/-- What the sources need of the other transactions, and of a deletion.

A transaction leaves a source alone that a run has passed and has in its scope; one that it brings
into the scope it enqueues, with a stamp not before the run. When a run of one repository deletes,
the sources stored under the repository's name that were last written before the run belong to it,
if they still yield a source. -/
def KeepsPace (i : Indexer) : Action → Prop
  | .transaction began statements =>
      let j := statements.foldl (execute began) i
      ∀ r run, i.runs[r]? = some run → run.status = .running →
        ∀ key, Passed i r run key → Covered j.store run key →
          (Covered i.store run key ∧ j.sources key = i.sources key) ∨
            (Marked j run key ∧ Fresh j run key)
  | .deleteStale =>
      ∀ r run, i.work = .closing r → i.runs[r]? = some run →
        ∀ repo ∈ run.scopeRepo, ∀ key row source, i.sources key = some row →
          row.repoName = some repo → row.updatedAt < run.startedAt →
          i.store.currentSource key = some source → source.repoName = some repo
  | _ => True

/-- The run that is at work. -/
def atWork : Work → Option RunId
  | .page r .. | .closing r | .swept r => some r
  | _ => none

/-- Every run under way that started at `since` or later has marked the sources of its scope that it
has passed. -/
structure Paced (since : Nat) (i : Indexer) : Prop where
  started : ∀ run ∈ i.runs, run.startedAt ≤ i.now
  working : ∀ r, atWork i.work = some r → ∃ run, i.runs[r]? = some run ∧ run.status = .running
  passed : ∀ r run, i.runs[r]? = some run → run.status = .running → since ≤ run.startedAt →
    ∀ key, Passed i r run key → Covered i.store run key → Marked i run key ∧ Fresh i run key

/-! ## What a step of the indexer leaves of that -/

/-- The run has the scope it had. -/
def SameScope (run run' : BackfillRun) : Prop :=
  run'.startedAt = run.startedAt ∧ ∀ source, run'.covers source = run.covers source

theorem SameScope.refl (run : BackfillRun) : SameScope run run := ⟨rfl, fun _ => rfl⟩

/-- Every row is as before or has been written now. -/
def RowsFrom (i j : Indexer) : Prop :=
  ∀ key row, j.sources key = some row → i.sources key = some row ∨ row.updatedAt = i.now

theorem RowsFrom.refl (i : Indexer) : RowsFrom i i := fun _ _ h => .inl h

theorem RowsFrom.fresh (h : RowsFrom i j) (hstart : run.startedAt ≤ i.now)
    (hfresh : Fresh i run key) : Fresh j run key := by
  intro row hrow
  rcases h key row hrow with hold | hnow
  · exact hfresh row hold
  · exact hnow ▸ hstart

theorem rowsFrom_putSource (i : Indexer) (key : SourceKey) (row : SourceRow)
    (hrow : row.updatedAt = i.now) : RowsFrom i (i.putSource key row) := by
  intro key' row' h
  simp only [putSource, Function.update_apply] at h
  split at h
  · cases h
    exact .inr hrow
  · exact .inl h

theorem rowsFrom_markSourcesDeleted (i : Indexer) (gone : SourceKey → Bool) :
    RowsFrom i (i.markSourcesDeleted i.now gone) := by
  intro key row h
  simp only [markSourcesDeleted] at h
  split at h
  · obtain ⟨old, -, rfl⟩ := Option.map_eq_some_iff.mp h
    exact .inr rfl
  · exact .inl h

theorem rowsFrom_update (i : Indexer) (key : SourceKey) {f : SourceRow → SourceRow}
    (hf : ∀ row, (f row).updatedAt = i.now) :
    RowsFrom i { i with sources := Function.update i.sources key ((i.sources key).map f) } := by
  intro key' row h
  simp only [Function.update_apply] at h
  split at h
  · obtain ⟨old, -, rfl⟩ := Option.map_eq_some_iff.mp h
    exact .inr (hf old)
  · exact .inl h

theorem rowsFrom_persistSource (wrong : List SourceKey) (i : Indexer) (source : EmbeddingSource) :
    RowsFrom i (persistSource hashText config wrong i source) := by
  unfold persistSource
  split
  · exact rowsFrom_update i source.sourceKey fun row => rfl
  · exact rowsFrom_update i source.sourceKey fun row => rfl

variable (hashText config) in
/-- What a pass writes, it writes to sources and embeddings only. -/
theorem persistSource_frame (wrong : List SourceKey) (i : Indexer) (source : EmbeddingSource) :
    (persistSource hashText config wrong i source).now = i.now ∧
      (persistSource hashText config wrong i source).store = i.store ∧
      (persistSource hashText config wrong i source).runs = i.runs ∧
      (persistSource hashText config wrong i source).marks = i.marks := by
  unfold persistSource
  split <;> exact ⟨rfl, rfl, rfl, rfl⟩

variable (hashText config) in
theorem persist_frame (wrong : List SourceKey) (sources : List EmbeddingSource) (i : Indexer) :
    (sources.foldl (persistSource hashText config wrong) i).store = i.store ∧
      (sources.foldl (persistSource hashText config wrong) i).now = i.now ∧
      (sources.foldl (persistSource hashText config wrong) i).runs = i.runs ∧
      (sources.foldl (persistSource hashText config wrong) i).marks = i.marks ∧
      RowsFrom i (sources.foldl (persistSource hashText config wrong) i) := by
  induction sources generalizing i with
  | nil => exact ⟨rfl, rfl, rfl, rfl, RowsFrom.refl i⟩
  | cons source sources ih =>
      obtain ⟨hnow, hstore, hruns, hmarks⟩ :=
        persistSource_frame hashText config wrong i source
      obtain ⟨hstore', hnow', hruns', hmarks', hrows'⟩ :=
        ih (persistSource hashText config wrong i source)
      rw [List.foldl_cons]
      refine ⟨hstore'.trans hstore, hnow'.trans hnow, hruns'.trans hruns, hmarks'.trans hmarks, ?_⟩
      intro key row hrow
      rcases hrows' key row hrow with hold | hlater
      · exact rowsFrom_persistSource wrong i source key row hold
      · exact .inr (hlater.trans hnow)

/-- The run has passed no more sources than before, but for those that are marked. -/
theorem Paced.of_progress (h : i.Paced since) (hstore : j.store = i.store)
    (hmarks : ∀ m ∈ i.marks, m ∈ j.marks) (hrows : RowsFrom i j)
    (hstarted : ∀ run ∈ j.runs, run.startedAt ≤ j.now)
    (hworking : ∀ r, atWork j.work = some r →
      ∃ run, j.runs[r]? = some run ∧ run.status = .running)
    (hpassed : ∀ r run' key, j.runs[r]? = some run' → run'.status = .running →
      Covered i.store run' key → Passed j r run' key →
        (Marked j run' key ∧ Fresh j run' key) ∨
          ∃ run, i.runs[r]? = some run ∧ run.status = .running ∧ SameScope run run' ∧
            Passed i r run key) : j.Paced since where
  started := hstarted
  working := hworking
  passed r run' hrun' hrunning hsince key hkey hcovered := by
    rw [hstore] at hcovered
    rcases hpassed r run' key hrun' hrunning hcovered hkey with hdone |
      ⟨run, hrun, hold, hsame, hkey⟩
    · exact hdone
    · obtain ⟨source, hsource, hcovers⟩ := hcovered
      obtain ⟨⟨m, hm, hmkey, hmark⟩, hfresh⟩ := h.passed r run hrun hold (hsame.1 ▸ hsince) key hkey
        ⟨source, hsource, by rw [← hsame.2]; exact hcovers⟩
      refine ⟨⟨m, hmarks m hm, hmkey, ?_⟩, ?_⟩
      · rw [hsame.1]
        exact hmark
      · have hstart := h.started run (List.mem_of_getElem? hrun)
        intro row hrow
        rw [hsame.1]
        exact hrows.fresh hstart hfresh row hrow

/-- A step that leaves the runs alone, and of whose work the runs have no part. -/
theorem Paced.of_other (h : i.Paced since) (hstore : j.store = i.store) (hnow : j.now = i.now)
    (hruns : j.runs = i.runs) (hmarks : j.marks = i.marks) (hrows : RowsFrom i j)
    (hwork : atWork j.work = none) : j.Paced since := by
  refine h.of_progress hstore (fun m hm => hmarks ▸ hm) hrows (by rw [hruns, hnow]; exact h.started)
    (fun r hr => ?_) fun r run' key hrun' hrunning _ hkey => ?_
  · rw [hwork] at hr
    cases hr
  · rw [hruns] at hrun'
    refine .inr ⟨run', hrun', hrunning, .refl run', ?_⟩
    rcases hkey with hle | hin
    · exact .inl hle
    · exfalso
      cases hj : j.work <;> rw [hj] at hin hwork <;> first | exact hin | cases hwork

/-! ## Transactions -/

theorem execute_frame (stamp : Nat) (i : Indexer) (statement : Statement) :
    (execute stamp i statement).runs = i.runs ∧ (execute stamp i statement).work = i.work ∧
      (execute stamp i statement).now = i.now ∧
      ∀ m ∈ i.marks, m ∈ (execute stamp i statement).marks := by
  cases statement with
  | enqueueEvent key kind contentHash => exact ⟨rfl, rfl, rfl, fun m => List.mem_cons_of_mem _⟩
  | upsertOperation key kind contentHash =>
      simp only [execute, upsertOperation]
      split
      · exact ⟨rfl, rfl, rfl, fun m => id⟩
      · exact ⟨rfl, rfl, rfl, fun m => List.mem_cons_of_mem _⟩
  | enqueueDigest key repo contentHash => exact ⟨rfl, rfl, rfl, fun m => List.mem_cons_of_mem _⟩
  | tables | markDeleted | removeSession => exact ⟨rfl, rfl, rfl, fun m => id⟩

theorem transaction_frame (stamp : Nat) (statements : List Statement) (i : Indexer) :
    (statements.foldl (execute stamp) i).runs = i.runs ∧
      (statements.foldl (execute stamp) i).work = i.work ∧
      (statements.foldl (execute stamp) i).now = i.now ∧
      ∀ m ∈ i.marks, m ∈ (statements.foldl (execute stamp) i).marks := by
  induction statements generalizing i with
  | nil => exact ⟨rfl, rfl, rfl, fun m => id⟩
  | cons statement statements ih =>
      obtain ⟨hruns, hwork, hnow, hmarks⟩ := execute_frame stamp i statement
      obtain ⟨hruns', hwork', hnow', hmarks'⟩ := ih (execute stamp i statement)
      exact ⟨hruns'.trans hruns, hwork'.trans hwork, hnow'.trans hnow,
        fun m hm => hmarks' m (hmarks m hm)⟩

theorem Paced.transaction (h : i.Paced since) {began : Nat} {statements : List Statement}
    (hok : i.KeepsPace (.transaction began statements)) :
    (statements.foldl (execute began) i).Paced since := by
  obtain ⟨hruns, hwork, hnow, hmarks⟩ := transaction_frame began statements i
  refine ⟨?_, ?_, fun r run hrun hrunning hsince key hkey hcovered => ?_⟩
  · rw [hruns, hnow]
    exact h.started
  · rw [hruns, hwork]
    exact h.working
  · rw [hruns] at hrun
    have hkey' : Passed i r run key := by
      unfold Passed at hkey ⊢
      rwa [hwork] at hkey
    rcases hok r run hrun hrunning key hkey' hcovered with ⟨hbefore, hsame⟩ | hdone
    · obtain ⟨⟨m, hm, hmark⟩, hfresh⟩ := h.passed r run hrun hrunning hsince key hkey' hbefore
      exact ⟨⟨m, hmarks m hm, hmark⟩, fun row hrow => hfresh row (hsame ▸ hrow)⟩
    · exact hdone

/-! ## Backfills -/

theorem Paced.reindex (h : i.Paced since) (hidle : i.work = .idle) (repo : Option String)
    (session : Option SessionUuid) (force : Bool) :
    (i.startBackfillRuns repo session force).Paced since := by
  refine h.of_progress rfl (fun m => id) (RowsFrom.refl i) ?_ (fun r hr => ?_)
    fun r run' key hrun' hrunning _ hkey => ?_
  · intro run hrun
    rcases List.mem_append.mp hrun with hold | hnew
    · exact h.started run hold
    · obtain ⟨f, -, rfl⟩ := List.mem_map.mp hnew
      exact le_rfl
  · have hnone : atWork i.work = some r := hr
    rw [hidle] at hnone
    cases hnone
  · by_cases hr : r < i.runs.length
    · rw [startBackfillRuns, List.getElem?_append_left hr] at hrun'
      exact .inr ⟨run', hrun', hrunning, .refl run', hkey⟩
    · rw [startBackfillRuns, List.getElem?_append_right (Nat.le_of_not_lt hr)] at hrun'
      obtain ⟨f, -, rfl⟩ := List.mem_map.mp (List.mem_of_getElem? hrun')
      exfalso
      rcases hkey with hle | hin
      · cases key <;> exact WithBot.not_coe_le_bot _ hle
      · have hin' : PassedInWork r _ key i.work := hin
        rw [hidle] at hin'
        exact hin'

theorem Paced.loadPage (h : i.Paced since) {limit : Nat}
    (hrun : i.runs[r]? = some run) (hrunning : run.status = .running) :
    Paced since { i with
      work := .page r (loadBackfillSources i.store run limit)
        (loadBackfillSources i.store run limit) 0
        ((loadBackfillSources i.store run limit).length < limit) } := by
  refine h.of_progress rfl (fun m => id) (RowsFrom.refl i) h.started (fun r' hr' => ?_)
    fun r' run' key hrun' hrunning' hcovered hkey => .inr ⟨run', hrun', hrunning', .refl run', ?_⟩
  · cases hr'
    exact ⟨run, hrun, hrunning⟩
  · rcases hkey with hle | ⟨rfl, hnot, hreach⟩
    · exact .inl hle
    · obtain rfl : run = run' := Option.some.inj (hrun.symm.trans hrun')
      by_contra hahead
      have hbehind : run.cursor < position key := not_le.mp fun hle => hahead (.inl hle)
      obtain ⟨source, hsource, hkey⟩ := mem_loadBackfillSources hcovered hbehind
        (hreach.imp id of_decide_eq_true)
      exact hnot (List.mem_map.mpr ⟨source, hsource, hkey⟩)

theorem Paced.upsertSeen (h : i.Paced since) {todo page : List EmbeddingSource}
    {marked marked' : Nat}
    {short : Bool} (hwork : i.work = .page r (source :: todo) page marked short) :
    Paced since { (i.upsertSourceSeen hashText config source run.generation run.force).mark
        source.sourceKey with
      work := .page r todo page marked' short } := by
  obtain ⟨running, hrunning⟩ := h.working r (by rw [hwork]; rfl)
  have hrows := rowsFrom_putSource i source.sourceKey
    { toColumns := source.toColumns
      contentHash := hashText source.text
      lastSeenGeneration := some run.generation
      indexStatus := if i.shouldPending hashText config source run.force then .pending else .indexed
      deletedAt := none
      updatedAt := i.now } rfl
  refine h.of_progress rfl (fun m => List.mem_cons_of_mem _) hrows h.started (fun r' hr' => ?_)
    fun r' run' key hrun' hrunning' hcovered hkey => ?_
  · cases hr'
    exact ⟨running, hrunning⟩
  · rcases hkey with hle | ⟨rfl, hnot, hreach⟩
    · exact .inr ⟨run', hrun', hrunning', .refl run', .inl hle⟩
    · by_cases hkey : key = source.sourceKey
      · have hstart := h.started run' (List.mem_of_getElem? hrun')
        refine .inl ⟨⟨_, List.mem_cons_self, hkey.symm, hstart⟩, fun row hrow => ?_⟩
        have hput : row = _ := (Option.some.inj ((Function.update_self (f := i.sources)
          source.sourceKey (some _)).symm.trans (hkey ▸ hrow))).symm
        rw [hput]
        exact hstart
      · refine .inr ⟨run', hrun', hrunning', .refl run', .inr ?_⟩
        rw [hwork]
        refine ⟨rfl, ?_, hreach⟩
        rw [List.map_cons, List.mem_cons, not_or]
        exact ⟨hkey, hnot⟩

theorem updateRun_self (f : BackfillRun → BackfillRun) :
    (i.updateRun r f).runs[r]? = (i.runs[r]?).map f := by
  rw [updateRun, List.getElem?_modify]
  simp

theorem updateRun_ne (f : BackfillRun → BackfillRun) {r' : RunId} (hr : r ≠ r') :
    (i.updateRun r f).runs[r']? = i.runs[r']? := by
  rw [updateRun, List.getElem?_modify]
  simp [hr]

theorem mem_updateRun {f : BackfillRun → BackfillRun} (h : run ∈ (i.updateRun r f).runs) :
    run ∈ i.runs ∨ ∃ old ∈ i.runs, run = f old := by
  obtain ⟨r', hr', hget⟩ := List.mem_iff_getElem.mp h
  have hget' := (List.getElem?_eq_getElem hr').trans (congrArg some hget)
  by_cases hr : r = r'
  · subst hr
    rw [updateRun_self] at hget'
    obtain ⟨old, hold, rfl⟩ := Option.map_eq_some_iff.mp hget'
    exact .inr ⟨old, List.mem_of_getElem? hold, rfl⟩
  · rw [updateRun_ne f hr] at hget'
    exact .inl (List.mem_of_getElem? hget')

/-- The run at work is changed in what its scope does not depend on. -/
theorem Paced.updateRun (h : i.Paced since) (r : RunId)
    (work : Work) {f : BackfillRun → BackfillRun}
    (hf : ∀ run, SameScope run (f run))
    (hworking : ∀ r', atWork work = some r' → r' = r ∧ atWork i.work = some r ∧
      ∀ run, (f run).status = run.status)
    (hother : ∀ r' run key, r ≠ r' → ¬ PassedInWork r' run key work)
    (hpassed : ∀ run key, i.runs[r]? = some run → (f run).status = .running →
      position key ≤ (f run).cursor ∨ PassedInWork r (f run) key work → Passed i r run key ∧
        run.status = .running) : Paced since { i.updateRun r f with work := work } := by
  refine h.of_progress rfl (fun m => id) (RowsFrom.refl i) (fun run hrun => ?_)
    (fun r' hr' => ?_) fun r' run' key hrun' hrunning' _ hkey => .inr ?_
  · rcases mem_updateRun hrun with hold | ⟨old, hold, rfl⟩
    · exact h.started run hold
    · rw [(hf old).1]
      exact h.started old hold
  · obtain ⟨rfl, hat, hstatus⟩ := hworking r' hr'
    obtain ⟨run, hrun, hrunning⟩ := h.working r' hat
    exact ⟨f run, (updateRun_self f).trans (by rw [hrun]; rfl), (hstatus run).trans hrunning⟩
  · by_cases hr : r = r'
    · subst hr
      obtain ⟨run, hrun, rfl⟩ := Option.map_eq_some_iff.mp ((updateRun_self f).symm.trans hrun')
      obtain ⟨hpass, hrunning⟩ := hpassed run key hrun hrunning' hkey
      exact ⟨run, hrun, hrunning, hf run, hpass⟩
    · refine ⟨run', (updateRun_ne f hr).symm.trans hrun', hrunning', .refl run', ?_⟩
      exact hkey.imp id fun hin => absurd hin (hother r' run' key hr)

theorem Paced.saveCursor (h : i.Paced since) {page : List EmbeddingSource} {marked : Nat}
    {short : Bool}
    (hwork : i.work = .page r [] page marked short) :
    Paced since { i.updateRun r fun run =>
        { run with
          cursor := Paging.lastKey (fun source => position source.sourceKey) run.cursor page
          rowsSeen := run.rowsSeen + page.length
          rowsMarkedPending := run.rowsMarkedPending + marked } with
      work := if short then .closing r else .idle } := by
  refine h.updateRun r (if short then .closing r else .idle)
    (fun run => ⟨rfl, fun _ => rfl⟩) (fun r' hr' => ?_)
    (fun r' run key hr hin => ?_) fun run key hrun hrunning hkey => ⟨.inr ?_, hrunning⟩
  · split at hr'
    · cases hr'
      exact ⟨rfl, by rw [hwork]; rfl, fun _ => rfl⟩
    · cases hr'
  · split at hin
    · exact hr hin
    · exact hin
  · rw [hwork]
    refine ⟨rfl, List.not_mem_nil, ?_⟩
    rcases hkey with hle | hin
    · exact .inl hle
    · cases short with
      | false => exact absurd hin id
      | true => exact .inr rfl

theorem complete_ne_running : RunStatus.complete ≠ .running := nofun

theorem failed_ne_running : RunStatus.failed ≠ .running := nofun

/-- The run at work ends. -/
theorem Paced.endRun (h : i.Paced since) {status : RunStatus} (hstatus : status ≠ .running)
    (r : RunId) :
    Paced since { i.updateRun r fun run => { run with status := status } with work := .idle } := by
  refine h.updateRun r .idle (fun run => ⟨rfl, fun _ => rfl⟩)
    (fun r' hr' => nomatch hr') (fun r' run key hr hin => hin) fun run key _ hrunning _ => ?_
  exact absurd hrunning hstatus

theorem Paced.deleteStale (h : i.Paced since) (hwork : i.work = .closing r) (run : BackfillRun) :
    Paced since { i.deleteStaleSources run with work := .swept r } := by
  have hrows := rowsFrom_markSourcesDeleted i fun key => (i.sources key).any (stale run key)
  refine h.of_progress rfl (fun m => id) hrows h.started (fun r' hr' => ?_)
    fun r' run' key hrun' hrunning' _ hkey => .inr ⟨run', hrun', hrunning', .refl run', ?_⟩
  · cases hr'
    exact h.working r (by rw [hwork]; rfl)
  · refine hkey.imp id fun hin => ?_
    rw [hwork]
    exact hin

/-! ## Runs of the system -/

theorem Paced.act (h : i.Paced since) {a : Action}
    (hok : ∀ began statements, a = .transaction began statements → i.KeepsPace a)
    (hact : i.act hashText config a = some j) : j.Paced since := by
  cases a with
  | transaction began statements =>
      simp only [Indexer.act] at hact
      split at hact
      · cases hact
        exact h.transaction (hok began statements rfl)
      · cases hact
  | reindex repo session =>
      simp only [Indexer.act] at hact
      split at hact
      · rename_i hidle
        cases hact
        exact h.reindex hidle repo session false
      · cases hact
  | loadPage r limit =>
      simp only [Indexer.act] at hact
      split at hact
      · rename_i run _ hrun
        split at hact
        · rename_i hrunning
          cases hact
          exact h.loadPage hrun hrunning.1
        · cases hact
      · cases hact
  | upsertSeen =>
      simp only [Indexer.act] at hact
      split at hact
      · rename_i hwork
        obtain ⟨run, -, rfl⟩ := Option.map_eq_some_iff.mp hact
        exact h.upsertSeen hwork
      · cases hact
  | saveCursor =>
      simp only [Indexer.act] at hact
      split at hact
      · rename_i hwork
        cases hact
        exact h.saveCursor hwork
      · cases hact
  | deleteStale =>
      simp only [Indexer.act] at hact
      split at hact
      · rename_i hwork
        obtain ⟨run, -, rfl⟩ := Option.map_eq_some_iff.mp hact
        exact h.deleteStale hwork run
      · cases hact
  | complete =>
      simp only [Indexer.act] at hact
      split at hact
      · cases hact
        exact h.endRun complete_ne_running _
      · cases hact
  | failRun =>
      simp only [Indexer.act] at hact
      split at hact
      · cases hact
        exact h.endRun failed_ne_running _
      · cases hact
        exact h.endRun failed_ne_running _
      · cases hact
        exact h.endRun failed_ne_running _
      · cases hact
  | abandon =>
      cases hact
      exact h.of_other rfl rfl rfl rfl (RowsFrom.refl i) rfl
  | beginPass keys =>
      simp only [Indexer.act] at hact
      split at hact
      · split at hact
        · cases hact
          exact h.of_other rfl rfl rfl rfl (RowsFrom.refl i) rfl
        · cases hact
      · cases hact
  | loadSource =>
      simp only [Indexer.act] at hact
      split at hact
      · split at hact
        · cases hact
          exact h.of_other rfl rfl rfl rfl (RowsFrom.refl i) rfl
        · cases hact
          exact h.of_other rfl rfl rfl rfl (RowsFrom.refl i) rfl
      · cases hact
  | finishLoad =>
      simp only [Indexer.act] at hact
      split at hact
      · cases hact
        exact h.of_other rfl rfl rfl rfl (rowsFrom_markSourcesDeleted i _) rfl
      · cases hact
  | persist wrong =>
      simp only [Indexer.act] at hact
      split at hact
      · rename_i sources hwork
        cases hact
        obtain ⟨hstore, hnow, hruns, hmarks, hrows⟩ :=
          persist_frame hashText config wrong sources i
        exact h.of_other hstore hnow hruns hmarks hrows rfl
      · cases hact

theorem Paced.step (h : i.Paced since) {a : Action}
    (hok : ∀ began statements, a = .transaction began statements → i.KeepsPace a)
    (hstep : i.step hashText config a = some j) : j.Paced since := by
  obtain ⟨k, hact, rfl⟩ := Option.map_eq_some_iff.mp hstep
  have hk := h.act hok hact
  exact ⟨fun run hrun => (hk.started run hrun).trans (Nat.le_succ _), hk.working, hk.passed⟩

theorem Paced.of_no_runs (hruns : i.runs = []) (hidle : i.work = .idle) :
    i.Paced since where
  started run hrun := by
    rw [hruns] at hrun
    cases hrun
  working r hr := by
    rw [hidle] at hr
    cases hr
  passed r run hrun := by
    rw [hruns] at hrun
    cases hrun

end Indexer

/-- **A backfill run keeps what is there.** When a run deletes what is stale, every source of its
family and scope has been passed to `upsert_source_seen` by it or marked by another since it
started, and what is deleted yields no source any more. -/
theorem backfill_keeps_sources (hashText : String → String) (config : Config)
    (start i j : Indexer) (r : RunId) (run : BackfillRun) (hruns : start.runs = [])
    (hidle : start.work = .idle)
    (hrun : Run (Indexer.step hashText config) Indexer.KeepsPace start i)
    (hwork : i.work = .closing r) (hr : i.runs[r]? = some run) (hok : i.KeepsPace .deleteStale)
    (hstep : i.step hashText config .deleteStale = some j) :
    (∀ key, Indexer.Covered i.store run key → Indexer.Marked i run key) ∧
      ∀ key row row', i.sources key = some row → row.deletedAt = none →
        j.sources key = some row' → row'.deletedAt ≠ none →
          i.store.currentSource key = none := by
  have hpaced : i.Paced 0 :=
    hrun.invariant (fun _ _ _ h hok hstep => h.step (fun _ _ _ => hok) hstep)
      (.of_no_runs hruns hidle)
  obtain ⟨running, hrunning, hstatus⟩ := hpaced.working r (by rw [hwork]; rfl)
  obtain rfl : run = running := Option.some.inj (hr.symm.trans hrunning)
  have hpassed : ∀ key, Indexer.Passed i r run key := fun key => .inr (by rw [hwork]; rfl)
  refine ⟨fun key hcovered =>
    (hpaced.passed r run hr hstatus (Nat.zero_le _) key (hpassed key) hcovered).1, ?_⟩
  intro key row row' hrow hlive hrow' hdeleted
  simp only [Indexer.step, Indexer.act, hwork, hr, Option.map_some, Option.some.injEq] at hstep
  subst hstep
  simp only [Indexer.deleteStaleSources, Indexer.markSourcesDeleted, hrow, Option.any_some]
    at hrow'
  split at hrow'
  · rename_i hstale
    simp only [Indexer.stale, Bool.decide_and, Bool.and_eq_true, decide_eq_true_eq] at hstale
    obtain ⟨hfamily, -, -, hold, hsession, hrepo⟩ := hstale
    cases hsource : i.store.currentSource key with
    | none => rfl
    | some source =>
        exfalso
        have hkey := Store.sourceKey_of_currentSource hsource
        have hname : run.scopeRepo.all (source.repoName = some ·) = true := by
          cases hscope : run.scopeRepo with
          | none => rfl
          | some repo =>
              rw [hscope] at hrepo
              exact decide_eq_true (hok r run hwork hr repo hscope key row source hrow
                (of_decide_eq_true hrepo) hold hsource)
        have hcovered : Indexer.Covered i.store run key := by
          refine ⟨source, hsource, ?_⟩
          rw [BackfillRun.covers, hkey, hname, hsession, hfamily]
          simp
        have hfresh :=
          (hpaced.passed r run hr hstatus (Nat.zero_le _) key (hpassed key) hcovered).2 row hrow
        exact absurd hold (not_lt.mpr hfresh)
  · cases hrow'
    exact absurd hlive hdeleted

/-- The transaction that stores a block and enqueues it keeps pace, unless it began before a run. -/
theorem keepsPace_insertBlock (i : Indexer) (hpaced : i.Paced 0) (began : Nat) (store : Store)
    (key : SourceKey) (kind : SourceKind) (contentHash : String)
    (hbegan : ∀ run ∈ i.runs, run.startedAt ≤ began)
    (hother : ∀ key' ≠ key, store.currentSource key' = i.store.currentSource key') :
    i.KeepsPace (.transaction began [.tables store, .enqueueEvent key kind contentHash]) := by
  intro r run hrun hrunning key' hpassed hcovered
  by_cases hkey : key' = key
  · subst hkey
    refine .inr ⟨⟨_, List.mem_cons_self, rfl, ?_⟩, fun row hrow => ?_⟩
    · exact hpaced.started run (List.mem_of_getElem? hrun)
    · simp only [List.foldl, Indexer.execute, Indexer.enqueueEvent, Indexer.mark,
        Indexer.putSource, Function.update_self, Option.some.injEq] at hrow
      subst hrow
      exact hbegan run (List.mem_of_getElem? hrun)
  · obtain ⟨source, hsource, hcovers⟩ := hcovered
    exact .inl ⟨⟨source, (hother key' hkey).symm.trans hsource, hcovers⟩,
      Function.update_of_ne hkey _ _⟩

/-! ## A session that has moved to another repository -/

def sampleConfig : Config := ⟨"model", 3, 256, 10⟩

/-- One session of a repository, with one block. -/
def sessionIn (repo : String) : Store where
  sessions := (∅ : Table SessionUuid SessionRow).insert 1 ⟨"codex", false, some repo, none, none⟩
  events := (∅ : Table (SessionUuid × Int) EventRow).insert (1, 40) ⟨some .assistant, 5⟩
  blocks := (∅ : Table (SessionUuid × Int × Int) BlockRow).insert (1, 40, 0)
    ⟨.text, some "fixed", none⟩
  turns := ∅
  operations := ∅
  touches := ∅

def sampleIndexer : Indexer :=
  { store := sessionIn "alpha", sources := fun _ => none, embeddings := fun _ => ∅, runs := []
    generation := 0, work := .idle, now := 0, marks := [] }

def firstRun : List Action := [.reindex none none, .loadPage 0 10, .upsertSeen, .saveCursor]

theorem backfill_keeps_sources_first :
    ∃ i j run, runList (Indexer.step id sampleConfig) sampleIndexer firstRun = some i ∧
      i.step id sampleConfig .deleteStale = some j ∧
      (∀ key, Indexer.Covered i.store run key → Indexer.Marked i run key) ∧
      ∀ key row row', i.sources key = some row → row.deletedAt = none →
        j.sources key = some row' → row'.deletedAt ≠ none →
          i.store.currentSource key = none := by
  refine ⟨_, _, _, rfl, rfl, backfill_keeps_sources id sampleConfig sampleIndexer _ _ 0 _ rfl rfl
    (Run.of_allowed firstRun ?_ rfl) rfl rfl ?_ rfl⟩
  · intro a ha s
    fin_cases ha <;> trivial
  · intro r run hwork hrun repo hrepo
    cases hwork
    cases hrun
    cases hrepo

/-- The session is indexed, moves to another repository, and a run of the former one starts. -/
def movedRun : List Action :=
  firstRun ++ [.deleteStale, .complete, .beginPass [.event 1 40 0], .loadSource, .finishLoad,
    .persist [], .transaction 9 [.tables (sessionIn "beta")], .reindex (some "alpha") none,
    .loadPage 4 10, .saveCursor]

/-- The run of the former repository deletes the source, whose block is still there. -/
theorem moved_session_loses_source :
    ¬ ∀ (hashText : String → String) (config : Config) (start i j : Indexer) (r : RunId)
        (run : BackfillRun), start.runs = [] → start.work = .idle →
      Run (Indexer.step hashText config) anyStep start i → i.work = .closing r →
      i.runs[r]? = some run → i.step hashText config .deleteStale = some j →
      (∀ key, Indexer.Covered i.store run key → Indexer.Marked i run key) ∧
        ∀ key row row', i.sources key = some row → row.deletedAt = none →
          j.sources key = some row' → row'.deletedAt ≠ none →
            i.store.currentSource key = none := by
  intro hkeeps
  have h := (hkeeps id sampleConfig sampleIndexer _ _ 4 _ rfl rfl
    (Run.of_runList movedRun rfl) rfl rfl rfl).2 (.event 1 40 0) _ _ rfl rfl rfl nofun
  exact absurd h nofun

end Sulion.Retrieval.Sources
