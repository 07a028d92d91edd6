import Sulion.Retrieval.SourceSteps

set_option autoImplicit false

/-! # Reindexing a store that no longer changes

After a full reindex has completed and the queue is drained, every source that is not deleted is
indexed with exactly the chunks of its current text. A further full reindex then changes nothing,
unless a source has no chunks: `length(trim(…)) > 0` keeps texts of tabs and line breaks that
`split_whitespace` finds blank, and such a source never has a current embedding
(`reindex_converges_iff`).
-/

namespace Sulion.Retrieval.Sources

open Transition

namespace Indexer

/-- The store does not change and the embedder answers as configured. -/
def Quiet : Indexer → Action → Prop
  | _, .transaction .. => False
  | _, .persist wrong => wrong = []
  | _, _ => True

/-- Nothing has been indexed yet. -/
structure Unindexed (i : Indexer) : Prop where
  sources : ∀ key, i.sources key = none
  runs : i.runs = []
  marks : i.marks = []

/-! ## The phase of a reindex -/

/-- What the work under way has read of the store is still so. -/
def WorkCurrent (store : Store) : Work → Prop
  | .page _ todo _ _ _ => ∀ source ∈ todo, store.currentSource source.sourceKey = some source
  | .loading _ sources deleted =>
      (∀ source ∈ sources, store.currentSource source.sourceKey = some source) ∧
        ∀ key ∈ deleted, store.currentSource key = none
  | .loaded sources => ∀ source ∈ sources, store.currentSource source.sourceKey = some source
  | _ => True

/-- The run has the whole family for its scope, and belongs to the phase. -/
structure Full (since generation : Nat) (run : BackfillRun) : Prop where
  repo : run.scopeRepo = none
  session : run.scopeSessionUuid = none
  started : since ≤ run.startedAt
  generation : generation < run.generation

/-- The row of a source that has been seen in the phase. -/
structure Kept (hashText : String → String) (since : Nat) (source : EmbeddingSource)
    (row : SourceRow) : Prop where
  live : row.deletedAt = none
  since : since ≤ row.updatedAt
  repo : row.repoName = source.repoName
  status : row.indexStatus = .pending ∨
    (row.indexStatus = .indexed ∧ row.contentHash = hashText source.text)

/-- The phase that starts at `since`, when the last generation was `generation`: sources that a run
has seen keep their row, rows without a source are left to the deletion, and a full run that has
deleted has left nothing of its family undone. -/
structure Phase (hashText : String → String) (config : Config) (store : Store)
    (since generation : Nat) (i : Indexer) : Prop where
  unchanged : i.store = store
  time : since ≤ i.now
  sound : i.Sound hashText config
  paced : i.Paced since
  work : WorkCurrent store i.work
  later : generation < i.generation
  full : ∀ (r : RunId) (run : BackfillRun), i.runs[r]? = some run →
    run.generation = generation + 1 → Full since generation run
  live : ∀ key source, store.currentSource key = some source →
    (∃ m ∈ i.marks, m.key = key ∧ since ≤ m.time) →
      ∃ row, i.sources key = some row ∧ Kept hashText since source row
  dead : ∀ key row, store.currentSource key = none → i.sources key = some row →
    row.deletedAt = none → row.updatedAt < since ∧ row.lastSeenGeneration.getD 0 ≤ generation
  swept : ∀ (r : RunId) (run : BackfillRun), i.runs[r]? = some run → Full since generation run →
    run.status = .complete ∨ i.work = .swept r →
      (∀ key row, family key = run.sourceFamily → store.currentSource key = none →
        i.sources key = some row → row.deletedAt ≠ none) ∧
      ∀ key source, family key = run.sourceFamily → store.currentSource key = some source →
        ∃ m ∈ i.marks, m.key = key ∧ since ≤ m.time

variable {hashText : String → String} {config : Config} {store : Store} {since generation : Nat}
  {i j k : Indexer} {a : Action} {key : SourceKey} {row : SourceRow} {source : EmbeddingSource}
  {r : RunId} {run : BackfillRun}

theorem WorkCurrent.act (h : WorkCurrent store i.work) (hstore : i.store = store)
    (hquiet : Quiet i a) (hact : i.act hashText config a = some j) : WorkCurrent store j.work := by
  cases a with
  | transaction began statements => exact absurd hquiet id
  | reindex repo session =>
      simp only [Indexer.act] at hact
      split at hact <;> cases hact
      exact h
  | loadPage r limit =>
      simp only [Indexer.act] at hact
      split at hact
      · split at hact <;> cases hact
        intro source hsource
        have := (mem_sortedSources.mp (Paging.mem_of_mem_page hsource)).1
        rwa [hstore] at this
      · cases hact
  | upsertSeen =>
      simp only [Indexer.act] at hact
      split at hact
      · rename_i hwork
        obtain ⟨run, -, rfl⟩ := Option.map_eq_some_iff.mp hact
        rw [hwork] at h
        exact fun source hsource => h source (List.mem_cons_of_mem _ hsource)
      · cases hact
  | saveCursor =>
      simp only [Indexer.act] at hact
      split at hact
      · cases hact
        dsimp only
        split <;> trivial
      · cases hact
  | deleteStale =>
      simp only [Indexer.act] at hact
      split at hact
      · obtain ⟨run, -, rfl⟩ := Option.map_eq_some_iff.mp hact
        trivial
      · cases hact
  | complete | failRun =>
      simp only [Indexer.act] at hact
      split at hact <;> cases hact <;> trivial
  | abandon =>
      cases hact
      trivial
  | beginPass keys =>
      simp only [Indexer.act] at hact
      split at hact
      · split at hact <;> cases hact
        exact ⟨List.forall_mem_nil _, List.forall_mem_nil _⟩
      · cases hact
  | loadSource =>
      simp only [Indexer.act] at hact
      split at hact
      · rename_i key todo sources deleted hwork
        rw [hwork] at h
        split at hact
        · rename_i source hsource
          cases hact
          rw [hstore] at hsource
          refine ⟨fun source' hmem => ?_, h.2⟩
          rcases List.mem_append.mp hmem with hold | hnew
          · exact h.1 source' hold
          · obtain rfl := List.mem_singleton.mp hnew
            rw [Store.sourceKey_of_currentSource hsource]
            exact hsource
        · rename_i hnone
          cases hact
          rw [hstore] at hnone
          refine ⟨h.1, fun key' hmem => ?_⟩
          rcases List.mem_append.mp hmem with hold | hnew
          · exact h.2 key' hold
          · obtain rfl := List.mem_singleton.mp hnew
            exact hnone
      · cases hact
  | finishLoad =>
      simp only [Indexer.act] at hact
      split at hact
      · rename_i hwork
        cases hact
        rw [hwork] at h
        exact h.1
      · cases hact
  | persist wrong =>
      simp only [Indexer.act] at hact
      split at hact <;> cases hact
      trivial

/-- The source is current where a step has read it. -/
theorem kept_seenRow (htime : since ≤ i.now) :
    Kept hashText since source (seenRow hashText config i source run) := by
  refine ⟨rfl, htime, rfl, ?_⟩
  unfold seenRow
  dsimp only
  split
  · exact .inl rfl
  · exact .inr ⟨rfl, rfl⟩

theorem IndexedRow.kept {rows : Table Nat EmbeddingRow} (htime : since ≤ i.now)
    (h : IndexedRow hashText config i source row rows) : Kept hashText since source row :=
  ⟨h.live, htime.trans h.stamp.ge, congrArg Columns.repoName h.columns,
    .inr ⟨h.status, h.contentHash⟩⟩

/-- A source that has been seen is not stale to the run that deletes. -/
theorem Phase.not_stale (h : Phase hashText config store since generation i)
    (hwork : i.work = .closing r) (hrun : i.runs[r]? = some run)
    (hsource : store.currentSource key = some source) (hrow : i.sources key = some row)
    (hkept : Kept hashText since source row) : stale run key row = false := by
  by_contra hstale
  rw [Bool.not_eq_false] at hstale
  simp only [stale, Bool.decide_and, Bool.and_eq_true, decide_eq_true_eq] at hstale
  obtain ⟨hfamily, -, -, hold, hsession, hrepo⟩ := hstale
  by_cases hsince : since ≤ run.startedAt
  · obtain ⟨running, hrunning, hstatus⟩ := h.paced.working r (by rw [hwork]; rfl)
    obtain rfl : run = running := Option.some.inj (hrun.symm.trans hrunning)
    have hcovered : Covered i.store run key := by
      refine ⟨source, h.unchanged ▸ hsource, ?_⟩
      rw [BackfillRun.covers, Store.sourceKey_of_currentSource hsource, hfamily, ← hkept.repo]
      simp [hsession, hrepo]
    have hfresh := (h.paced.passed r run hrun hstatus hsince key (.inr (by rw [hwork]; rfl))
      hcovered).2 row hrow
    exact absurd hold (not_lt.mpr hfresh)
  · exact absurd (hold.trans (not_le.mp hsince)) (not_lt.mpr hkept.since)

theorem Quiet.other (h : Quiet i a) (began : Nat) (statements : List Statement) :
    a ≠ .transaction began statements := by
  rintro rfl
  exact h

/-- A row of a source that the store has is kept, whatever the step. -/
theorem Phase.kept_act (h : Phase hashText config store since generation i) (hquiet : Quiet i a)
    (hact : i.act hashText config a = some j) (hsource : store.currentSource key = some source)
    {old : SourceRow} (hold : i.sources key = some old) (hkept : Kept hashText since source old)
    (hrow : j.sources key = some row) : Kept hashText since source row := by
  have hwork := h.work
  cases rowStep hact hrow with
  | kept hsame _ =>
      obtain rfl : old = row := Option.some.inj (hold.symm.trans hsame)
      exact hkept
  | written ha _ _ _ => exact absurd ha (hquiet.other _ _)
  | seen hpage _ hkey hrow _ =>
      rw [hpage] at hwork
      have hcurrent := hwork _ List.mem_cons_self
      rw [hkey, hsource] at hcurrent
      obtain rfl := Option.some.inj hcurrent
      exact hrow ▸ kept_seenRow h.time
  | stale hclosing hrun hold' hstale _ =>
      obtain rfl := Option.some.inj (hold.symm.trans hold')
      rw [h.not_stale hclosing hrun hsource hold hkept] at hstale
      cases hstale
  | missing hloading hmem _ _ =>
      rw [hloading] at hwork
      rw [hwork.2 key hmem] at hsource
      cases hsource
  | failed ha hwrong _ _ _ =>
      subst ha
      rw [show _ = [] from hquiet] at hwrong
      cases hwrong
  | indexed hloaded hmem hkey _ hindexed =>
      rw [hloaded] at hwork
      have hcurrent := hwork _ hmem
      rw [hkey, hsource] at hcurrent
      obtain rfl := Option.some.inj hcurrent
      exact hindexed.kept h.time

/-- A row that yields no source, and is not deleted, was there before the step. -/
theorem Phase.dead_act (h : Phase hashText config store since generation i) (hquiet : Quiet i a)
    (hact : i.act hashText config a = some j) (hnone : store.currentSource key = none)
    (hrow : j.sources key = some row) (hlive : row.deletedAt = none) :
    i.sources key = some row := by
  have hwork := h.work
  cases rowStep hact hrow with
  | kept hsame _ => exact hsame
  | written ha _ _ _ => exact absurd ha (hquiet.other _ _)
  | seen hpage _ hkey _ _ =>
      rw [hpage] at hwork
      have hcurrent := hwork _ List.mem_cons_self
      rw [hkey, hnone] at hcurrent
      cases hcurrent
  | stale _ _ _ _ hrow | missing _ _ _ hrow =>
      rw [hrow] at hlive
      cases hlive
  | failed ha hwrong _ _ _ =>
      subst ha
      rw [show _ = [] from hquiet] at hwrong
      cases hwrong
  | indexed hloaded hmem hkey _ _ =>
      rw [hloaded] at hwork
      have hcurrent := hwork _ hmem
      rw [hkey, hnone] at hcurrent
      cases hcurrent

theorem Phase.live_act (h : Phase hashText config store since generation i) (hquiet : Quiet i a)
    (hact : i.act hashText config a = some j) (hsource : store.currentSource key = some source)
    {m : Mark} (hm : m ∈ j.marks) (hkey : m.key = key) (htime : since ≤ m.time) :
    ∃ row, j.sources key = some row ∧ Kept hashText since source row := by
  cases markStep hact hm with
  | kept hmark =>
      obtain ⟨old, hold, hkept⟩ := h.live key source hsource ⟨m, hmark, hkey, htime⟩
      obtain ⟨row, hrow⟩ := row_stays hact hquiet.other (by rw [hold]; rfl)
      exact ⟨row, hrow, h.kept_act hquiet hact hsource hold hkept hrow⟩
  | written ha _ => exact absurd ha (hquiet.other _ _)
  | seen hpage hrow hmark =>
      subst hmark
      dsimp only at hkey
      subst hkey
      have hwork := h.work
      rw [hpage] at hwork
      have hcurrent := hwork _ List.mem_cons_self
      rw [hsource] at hcurrent
      obtain rfl := Option.some.inj hcurrent
      exact ⟨_, hrow, kept_seenRow h.time⟩

/-- **What a full run leaves done.** It deletes the rows of its family without a source, and has
come to every source of the family by then. -/
theorem Phase.swept_act (h : Phase hashText config store since generation i) (hquiet : Quiet i a)
    (hact : i.act hashText config a = some j) {run' : BackfillRun}
    (hrun' : j.runs[r]? = some run') (hfull : Full since generation run')
    (hdone : run'.status = .complete ∨ j.work = .swept r) :
    (∀ key row, family key = run'.sourceFamily → store.currentSource key = none →
      j.sources key = some row → row.deletedAt ≠ none) ∧
      ∀ key source, family key = run'.sourceFamily → store.currentSource key = some source →
        ∃ m ∈ j.marks, m.key = key ∧ since ≤ m.time := by
  have hmarks := (frame hact).marks
  -- a run that had deleted before the step
  have hbefore : ∀ run, i.runs[r]? = some run → SameRun run run' →
      (run.status = .complete ∨ i.work = .swept r) →
      (∀ key row, family key = run'.sourceFamily → store.currentSource key = none →
        j.sources key = some row → row.deletedAt ≠ none) ∧
        ∀ key source, family key = run'.sourceFamily → store.currentSource key = some source →
          ∃ m ∈ j.marks, m.key = key ∧ since ≤ m.time := by
    intro run hrun hsame hdone
    have hold : Full since generation run :=
      ⟨hsame.scopeRepo ▸ hfull.repo, hsame.scopeSessionUuid ▸ hfull.session,
        hsame.startedAt ▸ hfull.started, hsame.generation ▸ hfull.generation⟩
    obtain ⟨hdead, hlive⟩ := h.swept r run hrun hold hdone
    rw [hsame.sourceFamily]
    refine ⟨fun key row hfamily hnone hrow hopen => ?_, fun key source hfamily hsource => ?_⟩
    · exact hdead key row hfamily hnone (h.dead_act hquiet hact hnone hrow hopen) hopen
    · obtain ⟨m, hm, hmark⟩ := hlive key source hfamily hsource
      exact ⟨m, hmarks m hm, hmark⟩
  rcases hdone with hcomplete | hswept
  · cases runStep hact hrun' with
    | kept hrun hsame hwas => exact hbefore _ hrun hsame (hwas hcomplete)
    | started _ _ _ _ _ _ hstatus =>
        rw [hstatus] at hcomplete
        cases hcomplete
  · -- the run deletes in this step
    obtain ⟨hclosing, run, hrun, rfl⟩ := Indexer.swept_act hact hquiet.other hswept
    obtain rfl : run = run' := Option.some.inj (hrun.symm.trans hrun')
    refine ⟨fun key row hfamily hnone hrow hopen => ?_, fun key source hfamily hsource => ?_⟩
    · have hold := h.dead_act hquiet hact hnone hrow hopen
      obtain ⟨htime, hgeneration⟩ := h.dead key row hnone hold hopen
      have hstale : stale run key row = true := by
        simp only [stale, Bool.decide_and, Bool.and_eq_true, decide_eq_true_eq, hfull.repo,
          hfull.session, Option.all_none]
        exact ⟨hfamily, hopen, hgeneration.trans_lt hfull.generation,
          htime.trans_le hfull.started, trivial, trivial⟩
      have hgone : (i.deleteStaleSources run).sources key =
          some (deletedRow i.now row) := by
        simp only [deleteStaleSources, markSourcesDeleted, hold, Option.any_some, hstale, if_true]
        rfl
      rw [show (i.deleteStaleSources run).sources key = some row from hrow] at hgone
      rw [Option.some.inj hgone] at hopen
      cases hopen
    · obtain ⟨running, hrunning, hstatus⟩ := h.paced.working r (by rw [hclosing]; rfl)
      obtain rfl : run = running := Option.some.inj (hrun.symm.trans hrunning)
      have hcovered : Covered i.store run key := by
        refine ⟨source, h.unchanged ▸ hsource, ?_⟩
        rw [BackfillRun.covers, Store.sourceKey_of_currentSource hsource, hfamily, hfull.repo,
          hfull.session]
        simp
      obtain ⟨⟨m, hm, hmkey, hmark⟩, -⟩ := h.paced.passed r run hrun hstatus hfull.started key
        (.inr (by rw [hclosing]; rfl)) hcovered
      exact ⟨m, hm, hmkey, hfull.started.trans hmark⟩

theorem Phase.step (h : Phase hashText config store since generation i) (hquiet : Quiet i a)
    (hstep : i.step hashText config a = some k) :
    Phase hashText config store since generation k := by
  have hsound := h.sound.step hstep
  have hpaced := h.paced.step (fun began statements ha => absurd ha (hquiet.other _ _)) hstep
  obtain ⟨j, hact, rfl⟩ := Option.map_eq_some_iff.mp hstep
  have hframe := frame hact
  have hwork := h.work.act h.unchanged hquiet hact
  have hlive : ∀ key source, store.currentSource key = some source →
      (∃ m ∈ j.marks, m.key = key ∧ since ≤ m.time) →
        ∃ row, j.sources key = some row ∧ Kept hashText since source row := by
    rintro key source hsource ⟨m, hm, hkey, htime⟩
    exact h.live_act hquiet hact hsource hm hkey htime
  have hdead : ∀ key row, store.currentSource key = none → j.sources key = some row →
      row.deletedAt = none → row.updatedAt < since ∧ row.lastSeenGeneration.getD 0 ≤ generation :=
    fun key row hnone hrow hopen =>
      h.dead key row hnone (h.dead_act hquiet hact hnone hrow hopen) hopen
  exact
    { unchanged := (hframe.store hquiet.other).trans h.unchanged
      time := h.time.trans (hframe.now.ge.trans (Nat.le_succ _))
      sound := hsound
      paced := hpaced
      work := hwork
      later := h.later.trans_le hframe.generation
      full := fun r run' hrun' hgeneration => by
        cases runStep hact hrun' with
        | kept hrun hsame _ =>
            have hfull := h.full r _ hrun (hsame.generation ▸ hgeneration)
            exact ⟨hsame.scopeRepo ▸ hfull.repo, hsame.scopeSessionUuid ▸ hfull.session,
              hsame.startedAt ▸ hfull.started, hsame.generation ▸ hfull.generation⟩
        | started _ hnext _ _ _ _ _ =>
            have := h.later
            omega
      live := hlive
      dead := hdead
      swept := fun r run hrun hfull hdone => h.swept_act (j := j) hquiet hact hrun hfull hdone }

/-! ## The start of the phase -/

theorem Unindexed.sound (h : Unindexed i) : i.Sound hashText config where
  rows key row hrow := by
    rw [h.sources key] at hrow
    cases hrow
  runs r run hrun := by
    rw [h.runs] at hrun
    cases hrun
  chunks key row hrow := by
    rw [h.sources key] at hrow
    cases hrow

theorem marks_step (h : ∀ m ∈ i.marks, m.time < i.now)
    (hstep : i.step hashText config a = some k) : ∀ m ∈ k.marks, m.time < k.now := by
  obtain ⟨j, hact, rfl⟩ := Option.map_eq_some_iff.mp hstep
  intro m hm
  have hnow : m.time ≤ i.now := by
    cases markStep hact hm with
    | kept hmark => exact (h m hmark).le
    | written _ htime => exact htime.le
    | seen _ _ hmark => exact (congrArg Mark.time hmark).le
  exact Nat.lt_succ_of_le (hnow.trans (frame hact).now.ge)

/-- What a full reindex leaves. -/
structure Reindexed (i k : Indexer) : Prop where
  work : k.work = .idle
  store : k.store = i.store
  sources : k.sources = i.sources
  embeddings : k.embeddings = i.embeddings
  marks : k.marks = i.marks
  runs : k.runs = (i.startBackfillRuns none none false).runs
  generation : k.generation = i.generation + 1
  now : k.now = i.now + 1

theorem reindexed (hstep : i.step hashText config (.reindex none none) = some k) :
    Reindexed i k := by
  obtain ⟨j, hact, rfl⟩ := Option.map_eq_some_iff.mp hstep
  simp only [Indexer.act] at hact
  split at hact
  · rename_i hidle
    cases hact
    exact ⟨hidle, rfl, rfl, rfl, rfl, rfl, rfl, rfl⟩
  · cases hact

theorem new_run (hrun : (i.startBackfillRuns none none false).runs[r]? = some run) :
    i.runs[r]? = some run ∨
      (Full i.now i.generation run ∧ run.status = .running ∧ run.cursor = ⊥) := by
  by_cases hr : r < i.runs.length
  · rw [startBackfillRuns, List.getElem?_append_left hr] at hrun
    exact .inl hrun
  · rw [startBackfillRuns, List.getElem?_append_right (Nat.le_of_not_lt hr)] at hrun
    obtain ⟨f, -, rfl⟩ := List.mem_map.mp (List.mem_of_getElem? hrun)
    exact .inr ⟨⟨rfl, rfl, le_rfl, Nat.lt_succ_self _⟩, rfl, rfl⟩

/-- **A full reindex opens a phase.** -/
theorem Phase.start (hsound : i.Sound hashText config) (hmarks : ∀ m ∈ i.marks, m.time < i.now)
    (hstep : i.step hashText config (.reindex none none) = some k) :
    Phase hashText config i.store i.now i.generation k := by
  have hsound' := hsound.step hstep
  have hk := reindexed hstep
  have hruns : ∀ (r : RunId) (run : BackfillRun), k.runs[r]? = some run →
      i.runs[r]? = some run ∨
        (Full i.now i.generation run ∧ run.status = .running ∧ run.cursor = ⊥) := by
    intro r run hrun
    rw [hk.runs] at hrun
    exact new_run hrun
  have hpaced : Paced i.now k := by
    refine ⟨fun run hrun => ?_, fun r hr => ?_, fun r run hrun hrunning hsince key hpassed => ?_⟩
    · obtain ⟨r, hr⟩ := List.mem_iff_getElem?.mp hrun
      exact (hsound'.runs r run hr).1.le
    · rw [hk.work] at hr
      cases hr
    · exfalso
      rcases hruns r run hrun with hold | ⟨-, -, hcursor⟩
      · exact absurd hsince (not_le.mpr (hsound.runs r run hold).1)
      · rcases hpassed with hle | hin
        · rw [hcursor, le_bot_iff] at hle
          cases key <;> cases hle
        · rw [hk.work] at hin
          exact hin
  have hfull : ∀ (r : RunId) (run : BackfillRun), k.runs[r]? = some run →
      run.generation = i.generation + 1 → Full i.now i.generation run := by
    intro r run hrun hgeneration
    rcases hruns r run hrun with hold | ⟨hfull, -, -⟩
    · have := (hsound.runs r run hold).2.1
      omega
    · exact hfull
  refine
    { unchanged := hk.store
      time := hk.now ▸ Nat.le_succ _
      sound := hsound'
      paced := hpaced
      work := hk.work ▸ trivial
      later := hk.generation ▸ Nat.lt_succ_self _
      full := hfull
      live := fun key source _ ⟨m, hm, _, htime⟩ =>
        absurd htime (not_le.mpr (hmarks m (hk.marks ▸ hm)))
      dead := fun key row _ hrow _ => hsound.rows key row (hk.sources ▸ hrow)
      swept := fun r run hrun hrunfull hdone => absurd hdone ?_ }
  rcases hruns r run hrun with hold | ⟨-, hrunning, -⟩
  · exact absurd hrunfull.started (not_le.mpr (hsound.runs r run hold).1)
  · rw [hrunning, hk.work]
    rintro (hcomplete | hswept)
    · cases hcomplete
    · cases hswept

/-- The phase lasts as long as the store does not change. -/
theorem phase_of_run {start s0 s1 s2 : Indexer} (hstart : Unindexed start)
    (hhistory : Run (Indexer.step hashText config) anyStep start s0)
    (hfirst : s0.step hashText config (.reindex none none) = some s1)
    (hrun : Run (Indexer.step hashText config) Quiet s1 s2) :
    Phase hashText config s0.store s0.now s0.generation s2 := by
  have hpast : s0.Sound hashText config ∧ ∀ m ∈ s0.marks, m.time < s0.now :=
    hhistory.invariant (I := fun i => i.Sound hashText config ∧ ∀ m ∈ i.marks, m.time < i.now)
      (fun _ _ _ h _ hstep => ⟨h.1.step hstep, marks_step h.2 hstep⟩)
      ⟨hstart.sound, by rw [hstart.marks]; exact List.forall_mem_nil _⟩
  exact hrun.invariant (fun _ _ _ h hquiet hstep => h.step hquiet hstep)
    (Phase.start hpast.1 hpast.2 hfirst)

/-! ## The index that a full reindex leaves -/

/-- The run of each family in the generation is complete. -/
def Completed (generation : Nat) (i : Indexer) : Prop :=
  ∀ f, ∃ run ∈ i.runs, run.generation = generation ∧ run.sourceFamily = f ∧
    run.status = .complete

/-- No source is pending. -/
def Drained (i : Indexer) : Prop :=
  ∀ key row, i.sources key = some row → row.deletedAt = none → row.indexStatus ≠ .pending

/-- Every source that is not deleted is indexed, with exactly the chunks of its current text. -/
def Exact (hashText : String → String) (config : Config) (i : Indexer) : Prop :=
  ∀ key row, i.sources key = some row → row.deletedAt = none →
    row.indexStatus = .indexed ∧ ∃ source, i.store.currentSource key = some source ∧
      ChunksOf hashText config source.text (i.embeddings key)

/-- The sources that are not deleted in the one state are not deleted in the other. -/
def KeepsSources (i j : Indexer) : Prop :=
  ∀ key row, i.sources key = some row → row.deletedAt = none →
    ∃ row', j.sources key = some row' ∧ row'.deletedAt = none

/-- Every source of the store is indexed as it is, and the rows without a source are deleted. -/
structure Settled (hashText : String → String) (config : Config) (store : Store) (since : Nat)
    (i : Indexer) : Prop where
  live : ∀ key source, store.currentSource key = some source →
    ∃ row, i.sources key = some row ∧ Kept hashText since source row ∧
      row.indexStatus = .indexed ∧ ChunksOf hashText config source.text (i.embeddings key)
  dead : ∀ key row, store.currentSource key = none → i.sources key = some row →
    row.deletedAt ≠ none

theorem Kept.contentHash (h : Kept hashText since source row)
    (hindexed : row.indexStatus = .indexed) : row.contentHash = hashText source.text := by
  rcases h.status with hpending | ⟨-, hhash⟩
  · rw [hpending] at hindexed
    cases hindexed
  · exact hhash

theorem Phase.settled (h : Phase hashText config store since generation i)
    (hcollision : Function.Injective hashText) (hcomplete : Completed (generation + 1) i)
    (hdrained : Drained i) : Settled hashText config store since i := by
  have hswept : ∀ key, (∀ row, store.currentSource key = none → i.sources key = some row →
      row.deletedAt ≠ none) ∧ ∀ source, store.currentSource key = some source →
        ∃ m ∈ i.marks, m.key = key ∧ since ≤ m.time := by
    intro key
    obtain ⟨run, hmem, hgeneration, hfamily, hstatus⟩ := hcomplete (family key)
    obtain ⟨r, hrun⟩ := List.mem_iff_getElem?.mp hmem
    obtain ⟨hdead, hlive⟩ := h.swept r run hrun (h.full r run hrun hgeneration) (.inl hstatus)
    exact ⟨fun row => hdead key row hfamily.symm, fun source => hlive key source hfamily.symm⟩
  refine ⟨fun key source hsource => ?_, fun key row => (hswept key).1 row⟩
  obtain ⟨row, hrow, hkept⟩ := h.live key source hsource ((hswept key).2 source hsource)
  have hindexed : row.indexStatus = .indexed := by
    rcases hkept.status with hpending | ⟨hindexed, -⟩
    · exact absurd hpending (hdrained key row hrow hkept.live)
    · exact hindexed
  obtain ⟨text, hhash, hchunks⟩ := h.sound.chunks key row hrow hindexed hkept.live
  rw [hkept.contentHash hindexed] at hhash
  exact ⟨row, hrow, hkept, hindexed, hcollision hhash ▸ hchunks⟩

theorem Settled.exact (h : Settled hashText config store since i) (hstore : i.store = store) :
    Exact hashText config i := by
  intro key row hrow hopen
  cases hsource : store.currentSource key with
  | none => exact absurd hopen (h.dead key row hsource hrow)
  | some source =>
      obtain ⟨live, hlive, -, hindexed, hchunks⟩ := h.live key source hsource
      obtain rfl : row = live := Option.some.inj (hrow.symm.trans hlive)
      exact ⟨hindexed, source, hstore ▸ hsource, hchunks⟩

theorem Settled.drained (h : Settled hashText config store since i) (hstore : i.store = store) :
    Drained i := by
  intro key row hrow hopen hpending
  have hindexed := (h.exact hstore key row hrow hopen).1
  rw [hpending] at hindexed
  cases hindexed

/-- A source that has a chunk is not marked pending again. -/
theorem Settled.not_pending (h : Settled hashText config store since i)
    (hsource : store.currentSource key = some source) (hnonblank : chunks config source ≠ []) :
    i.shouldPending hashText config source false = false := by
  obtain ⟨row, hrow, hkept, hindexed, hchunks⟩ := h.live key source hsource
  have hkey := Store.sourceKey_of_currentSource hsource
  have hhash := hkept.contentHash hindexed
  have hcurrent := hchunks.hasCurrentEmbedding hnonblank hhash
  rw [← hkey] at hrow hcurrent
  rw [shouldPending, hrow]
  simp [hkept.live, hindexed, hhash, hhash ▸ hcurrent]

theorem Settled.step (h : Settled hashText config store since i)
    (hphase : Phase hashText config store since generation i)
    (hnonblank : ∀ key source, store.currentSource key = some source → chunks config source ≠ [])
    (hquiet : Quiet i a) (hstep : i.step hashText config a = some k) :
    Settled hashText config store since k := by
  obtain ⟨j, hact, rfl⟩ := Option.map_eq_some_iff.mp hstep
  have hwork := hphase.work
  refine ⟨fun key source hsource => ?_, fun key row hnone hrow hopen =>
    h.dead key row hnone (hphase.dead_act hquiet hact hnone hrow hopen) hopen⟩
  obtain ⟨old, hold, hkept, hindexed, hchunks⟩ := h.live key source hsource
  obtain ⟨row, hrow⟩ := row_stays hact hquiet.other (by rw [hold]; rfl)
  refine ⟨row, hrow, hphase.kept_act hquiet hact hsource hold hkept hrow, ?_⟩
  cases rowStep hact hrow with
  | kept hsame hrows =>
      obtain rfl : old = row := Option.some.inj (hold.symm.trans hsame)
      exact ⟨hindexed, hrows ▸ hchunks⟩
  | written ha _ _ _ => exact absurd ha (hquiet.other _ _)
  | seen hpage hrun hkey hrow hrows =>
      rw [hpage] at hwork
      have hcurrent := hwork _ List.mem_cons_self
      rw [hkey, hsource] at hcurrent
      obtain rfl := Option.some.inj hcurrent
      refine ⟨?_, hrows ▸ hchunks⟩
      rw [hrow, seenRow, (hphase.sound.runs _ _ hrun).2.2]
      simp [h.not_pending hsource (hnonblank key source hsource)]
  | stale hclosing hrun hold' hstale _ =>
      obtain rfl := Option.some.inj (hold.symm.trans hold')
      rw [hphase.not_stale hclosing hrun hsource hold hkept] at hstale
      cases hstale
  | missing hloading hmem _ _ =>
      rw [hloading] at hwork
      rw [hwork.2 key hmem] at hsource
      cases hsource
  | failed ha hwrong _ _ _ =>
      subst ha
      rw [show _ = [] from hquiet] at hwrong
      cases hwrong
  | indexed hloaded hmem hkey _ hwritten =>
      rw [hloaded] at hwork
      have hcurrent := hwork _ hmem
      rw [hkey, hsource] at hcurrent
      obtain rfl := Option.some.inj hcurrent
      exact ⟨hwritten.status, hwritten.chunks⟩

theorem Settled.keepsSources (h : Settled hashText config store since i)
    (hk : Settled hashText config store since k) : KeepsSources i k := by
  intro key row hrow hopen
  cases hsource : store.currentSource key with
  | none => exact absurd hopen (h.dead key row hsource hrow)
  | some source =>
      obtain ⟨row', hrow', hkept, -, -⟩ := hk.live key source hsource
      exact ⟨row', hrow', hkept.live⟩

/-! ## A source without chunks -/

/-- A source without embeddings is marked pending, whatever its row says. -/
theorem shouldPending_of_empty (force : Bool) (h : i.embeddings source.sourceKey = ∅) :
    i.shouldPending hashText config source force = true := by
  unfold shouldPending
  split
  · rfl
  · simp [hasCurrentEmbedding, h]

/-- A page marks a source pending that has no embeddings. -/
theorem pending_of_page {page : List EmbeddingSource} {short : Bool} (todo : List EmbeddingSource)
    (i : Indexer) (marked : Nat) (hwork : i.work = .page r todo page marked short)
    (hrun : i.runs[r]? = some run) (hsource : source ∈ todo)
    (hempty : i.embeddings source.sourceKey = ∅) :
    ∃ k, Run (Indexer.step hashText config) Quiet i k ∧ ¬ Drained k := by
  induction todo generalizing i marked with
  | nil => cases hsource
  | cons first todo ih =>
      obtain ⟨next, hstep, hwork', hruns', hembeddings, hrow⟩ : ∃ next,
          i.step hashText config .upsertSeen = some next ∧
          (∃ marked, next.work = .page r todo page marked short) ∧ next.runs = i.runs ∧
          next.embeddings = i.embeddings ∧
          next.sources first.sourceKey = some (seenRow hashText config i first run) := by
        simp only [Indexer.step, Indexer.act, hwork, hrun, Option.map_some]
        exact ⟨_, rfl, ⟨_, rfl⟩, rfl, rfl, Function.update_self ..⟩
      have hfirst : Run (Indexer.step hashText config) Quiet i next :=
        .snoc (a := .upsertSeen) (.refl i) trivial hstep
      rcases List.mem_cons.mp hsource with rfl | hlater
      · refine ⟨next, hfirst, fun hdrained => hdrained source.sourceKey _ hrow rfl ?_⟩
        rw [seenRow, shouldPending_of_empty run.force hempty]
        rfl
      · obtain ⟨marked', hwork'⟩ := hwork'
        obtain ⟨k, hrest, hpending⟩ :=
          ih next marked' hwork' (hruns' ▸ hrun) hlater (hembeddings ▸ hempty)
        exact ⟨k, hfirst.trans hrest, hpending⟩

variable (hashText config) in
/-- So does a run that starts over its family. -/
theorem pending_of_run (hidle : i.work = .idle) (hrun : i.runs[r]? = some run)
    (hrunning : run.status = .running) (hcursor : run.cursor = ⊥)
    (hcovered : Covered i.store run key) (hempty : i.embeddings key = ∅) :
    ∃ k, Run (Indexer.step hashText config) Quiet i k ∧ ¬ Drained k := by
  let limit := (sortedSources i.store run).length + 1
  let page := loadBackfillSources i.store run limit
  have hshort : page.length < limit := by
    have htake : page.length ≤ (sortedSources i.store run).length :=
      (List.length_take_le' _ _).trans (List.length_filter_le _ _)
    omega
  have hstep : i.step hashText config (.loadPage r limit) = some
      { i with work := .page r page page 0 (page.length < limit), now := i.now + 1 } := by
    simp only [Indexer.step, Indexer.act, hidle, hrun]
    rw [if_pos ⟨hrunning, Nat.le_add_left 1 _⟩]
    rfl
  obtain ⟨source, hmem, hkey⟩ := mem_loadBackfillSources hcovered
    (by rw [hcursor]; cases key <;> exact WithBot.bot_lt_coe _) (.inr hshort)
  obtain ⟨k, hrest, hpending⟩ := pending_of_page page
    { i with work := .page r page page 0 (page.length < limit), now := i.now + 1 } 0 rfl hrun hmem
    (by rw [hkey]; exact hempty)
  exact ⟨k, (Run.snoc (a := .loadPage r limit) (.refl i) trivial hstep).trans hrest, hpending⟩

end Indexer

open Indexer

/-- **Reindexing converges just when every source has a chunk.** The store no longer changes and
every embedding call succeeds. After a full reindex that has completed, with the queue drained, the
index is exact; a further one marks nothing pending and deletes nothing if and only if no source is
blank to `chunk_text`. -/
theorem reindex_converges_iff (hashText : String → String) (config : Config)
    (hcollision : Function.Injective hashText) (start s0 s1 s2 s3 : Indexer)
    (hstart : Unindexed start) (hhistory : Run (Indexer.step hashText config) anyStep start s0)
    (hfirst : s0.step hashText config (.reindex none none) = some s1)
    (hrun : Run (Indexer.step hashText config) Quiet s1 s2)
    (hcompleted : Completed s1.generation s2)
    (hdrained : Drained s2) (hsecond : s2.step hashText config (.reindex none none) = some s3) :
    (Exact hashText config s2 ∧ ∀ s4, Run (Indexer.step hashText config) Quiet s3 s4 →
        Drained s4 ∧ KeepsSources s2 s4) ↔
      ∀ key source, s2.store.currentSource key = some source → chunks config source ≠ [] := by
  have h2 := phase_of_run hstart hhistory hfirst hrun
  have h3 := h2.step (a := .reindex none none) trivial hsecond
  rw [(reindexed hfirst).generation] at hcompleted
  have hsettled := h2.settled hcollision hcompleted hdrained
  have hnew := reindexed hsecond
  constructor
  · rintro ⟨-, hconverges⟩ key source hsource hblank
    obtain ⟨row, -, -, -, hchunks⟩ := hsettled.live key source (h2.unchanged ▸ hsource)
    -- the run of the source's family
    obtain ⟨run, hmem, hfamily⟩ : ∃ run ∈ s3.runs, run.sourceFamily = family key ∧
        run.status = .running ∧ run.cursor = ⊥ ∧ run.scopeRepo = none ∧
        run.scopeSessionUuid = none := by
      rw [hnew.runs]
      refine ⟨_, List.mem_append_right _ (List.mem_map.mpr ⟨family key, ?_, rfl⟩), rfl, rfl, rfl,
        rfl, rfl⟩
      cases family key <;> decide
    obtain ⟨hfamily, hrunning, hcursor, hrepo, hsession⟩ := hfamily
    obtain ⟨r, hr⟩ := List.mem_iff_getElem?.mp hmem
    have hcovered : Covered s3.store run key := by
      refine ⟨source, hnew.store ▸ hsource, ?_⟩
      rw [BackfillRun.covers, Store.sourceKey_of_currentSource hsource, hfamily, hrepo, hsession]
      simp
    have hempty : s3.embeddings key = ∅ := by
      rw [hnew.embeddings]
      exact hchunks.lookup_none hblank
    obtain ⟨s4, hrun4, hpending⟩ := pending_of_run hashText config
      hnew.work hr hrunning hcursor hcovered hempty
    exact hpending (hconverges s4 hrun4).1
  · intro hnonblank
    refine ⟨hsettled.exact h2.unchanged, fun s4 hrun4 => ?_⟩
    have hkeep : Preserved (Indexer.step hashText config) Quiet fun i =>
        Phase hashText config s0.store s0.now s0.generation i ∧
          Settled hashText config s0.store s0.now i :=
      fun _ _ _ h hquiet hstep => ⟨h.1.step hquiet hstep,
        h.2.step h.1 (fun key source => h2.unchanged ▸ hnonblank key source) hquiet hstep⟩
    have hstart3 := hkeep _ (.reindex none none) _ ⟨h2, hsettled⟩ trivial hsecond
    obtain ⟨h4, hsettled4⟩ := hrun4.invariant hkeep hstart3
    exact ⟨hsettled4.drained h4.unchanged, hsettled.keepsSources hsettled4⟩

/-! ## One block -/

/-- A session with one block. -/
def blockStore (text : String) : Store :=
  { sessionIn "alpha" with
    blocks := (∅ : Table (SessionUuid × Int × Int) BlockRow).insert (1, 40, 0)
      ⟨.text, some text, none⟩ }

def blockIndexer (text : String) : Indexer := { sampleIndexer with store := blockStore text }

/-- A run from its first page to its end, when the page has `seen` sources. -/
def wholeRun (r : RunId) (seen : Nat) : List Action :=
  .loadPage r 10 :: List.replicate seen .upsertSeen ++ [.saveCursor, .deleteStale, .complete]

/-- The runs of a full reindex, and the pass that indexes the block. -/
def wholeReindex : List Action :=
  wholeRun 0 1 ++ wholeRun 1 0 ++ wholeRun 2 0 ++ wholeRun 3 0 ++
    [.beginPass [.event 1 40 0], .loadSource, .finishLoad, .persist []]

theorem quiet_wholeReindex : ∀ a ∈ wholeReindex, ∀ i, Quiet i a := by
  intro a ha i
  fin_cases ha <;> trivial

theorem key_of_blockStore {text : String} {key : SourceKey} {source : EmbeddingSource}
    (h : (blockStore text).currentSource key = some source) : key = .event 1 40 0 := by
  have hkeys : ∀ f, ∀ key ∈ (blockStore text).keys f, key = .event 1 40 0 := by
    rintro (_ | _ | _ | _) key hkey
    · exact List.mem_singleton.mp hkey
    · cases hkey
    · cases hkey
    · cases hkey
  exact hkeys _ key (Store.mem_keys_of_currentSource h)

theorem completed_of_runs {i : Indexer} {generation : Nat}
    (h : i.runs.map (fun run => (run.generation, run.sourceFamily, run.status)) =
      families.map fun f => (generation, f, .complete)) : Completed generation i := by
  intro f
  have hmem : (generation, f, RunStatus.complete) ∈
      families.map fun f => (generation, f, RunStatus.complete) :=
    List.mem_map.mpr ⟨f, by cases f <;> decide, rfl⟩
  rw [← h] at hmem
  obtain ⟨run, hrun, heq⟩ := List.mem_map.mp hmem
  simp only [Prod.mk.injEq] at heq
  exact ⟨run, hrun, heq⟩

/-- The queue is drained when the block is not pending. -/
theorem drained_block (text : String) {s1 s2 : Indexer}
    (hfirst : (blockIndexer text).step id sampleConfig (.reindex none none) = some s1)
    (hrun : Run (Indexer.step id sampleConfig) Quiet s1 s2)
    (hblock : ∀ row ∈ s2.sources (.event 1 40 0), row.indexStatus ≠ .pending) : Drained s2 := by
  intro key row hrow hopen
  have hphase := phase_of_run ⟨fun _ => rfl, rfl, rfl⟩ (.refl _) hfirst hrun
  cases hsource : (blockStore text).currentSource key with
  | none => exact absurd (hphase.dead key row hsource hrow hopen).1 (Nat.not_lt_zero _)
  | some source =>
      obtain rfl := key_of_blockStore hsource
      exact hblock row hrow

theorem reindex_converges_block :
    ∃ s1 s2 s3, (blockIndexer "fixed").step id sampleConfig (.reindex none none) = some s1 ∧
      runList (Indexer.step id sampleConfig) s1 wholeReindex = some s2 ∧
      s2.step id sampleConfig (.reindex none none) = some s3 ∧
      ((Exact id sampleConfig s2 ∧ ∀ s4, Run (Indexer.step id sampleConfig) Quiet s3 s4 →
          Drained s4 ∧ KeepsSources s2 s4) ↔
        ∀ key source, s2.store.currentSource key = some source →
          chunks sampleConfig source ≠ []) := by
  refine ⟨_, _, _, rfl, rfl, rfl, reindex_converges_iff id sampleConfig Function.injective_id
    (blockIndexer "fixed") (blockIndexer "fixed") _ _ _ ⟨fun _ => rfl, rfl, rfl⟩ (.refl _) rfl
    (Run.of_allowed wholeReindex quiet_wholeReindex rfl) (completed_of_runs rfl)
    (drained_block "fixed" rfl (Run.of_allowed wholeReindex quiet_wholeReindex rfl) ?_) rfl⟩
  intro row hrow
  cases hrow
  nofun

/-- A line break is a source to the query and blank to `chunk_text`: the second reindex marks it
pending again. -/
theorem line_break_never_settles :
    ¬ ∀ (hashText : String → String) (config : Config) (start s0 s1 s2 s3 : Indexer),
      Function.Injective hashText → Unindexed start →
      Run (Indexer.step hashText config) anyStep start s0 →
      s0.step hashText config (.reindex none none) = some s1 →
      Run (Indexer.step hashText config) Quiet s1 s2 → Completed s1.generation s2 → Drained s2 →
      s2.step hashText config (.reindex none none) = some s3 →
      Exact hashText config s2 ∧ ∀ s4, Run (Indexer.step hashText config) Quiet s3 s4 →
        Drained s4 ∧ KeepsSources s2 s4 := by
  intro hconverges
  have h := (hconverges id sampleConfig (blockIndexer "\n") (blockIndexer "\n") _ _ _
    Function.injective_id ⟨fun _ => rfl, rfl, rfl⟩ (.refl _) rfl
    (Run.of_allowed wholeReindex quiet_wholeReindex rfl) (completed_of_runs rfl)
    (drained_block "\n" rfl (Run.of_allowed wholeReindex quiet_wholeReindex rfl) ?_) rfl).2 _
    (Run.of_allowed [.loadPage 4 10, .upsertSeen] ?_ rfl)
  · exact h.1 (.event 1 40 0) _ rfl rfl rfl
  · intro row hrow
    cases hrow
    nofun
  · intro a ha i
    fin_cases ha <;> trivial

end Sulion.Retrieval.Sources
