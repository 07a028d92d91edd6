import Sulion.Archive.Rollups
import Sulion.Lib.Queries

set_option autoImplicit false

/-! # The usage report across a purge

`usage.sql` adds up the usage of the live sessions, each under the repository it is attributed to,
and the rollup that the purged ones left behind. The attribution is written twice: for all sessions
at once in the report (`dimensions`) and for one session at its purge (`attributedRepo`). They
agree (`filter_dimensions`), and a purge moves a session's rows from the one source to the other
under the same key, so the report stays as it is (`usage_report_survives_purges`).
-/

namespace Sulion.Archive

open Usage Transition

/-! ## The tables -/

/-- The name of a repository; every way to make one refuses the empty name. -/
structure RepoName where
  name : String
  name_ne : name ≠ ""

/-- A row of `claude_sessions`, but for `purged_at`. -/
structure ClaudeSession where
  ptySessionId : Option Uuid
  parentSessionUuid : Option Uuid
  projectHash : Option String
  archivedAt : Option Timestamp
  archiveEvents : Option Int

/-- A row of `pty_sessions`; `live` is `state = 'live'`. -/
structure PtySessionRow where
  repo : RepoName
  currentSessionUuid : Option Uuid
  live : Bool

/-- A row of `repo_runtime_state`. -/
structure RepoRuntimeState where
  repoName : RepoName
  path : String

/-- The tables that the report and a purge read. The usage rows of `rollups` belong to sessions of
`claudeSessions`, as their foreign key has it. -/
structure UsageStore where
  rollups : RollupDb
  claudeSessions : Table Uuid ClaudeSession
  ptySessions : Table Uuid PtySessionRow
  repoRuntimeState : List RepoRuntimeState
  /-- The number of each session's rows in `events`. -/
  eventCount : Uuid → Nat
  /-- What `projections_behind` finds. -/
  projectionsBehind : List String
  /-- What `session_projection_current` finds. -/
  projectionCurrent : Uuid → Bool

/-! ## The attribution, twice -/

/-- `regexp_replace(path, '[^A-Za-z0-9]', '-', 'g')`. -/
def projectHashOf (path : String) : String :=
  String.ofList (path.toList.map fun c => if c.isAlphanum then c else '-')

/-- A row of `lineage`. -/
structure LineageRow where
  origin : Uuid
  ptySessionId : Option Uuid
  parentSessionUuid : Option Uuid
  depth : Nat

/-- The first round of `lineage`, for the listed sessions. -/
def lineageStart (sessions : List (Uuid × ClaudeSession)) : List LineageRow :=
  sessions.map fun (uuid, cs) => ⟨uuid, cs.ptySessionId, cs.parentSessionUuid, 0⟩

/-- The parents of the rows that have no PTY yet. -/
def lineageNext (sessions : Table Uuid ClaudeSession) (rows : List LineageRow) : List LineageRow :=
  rows.filterMap fun l =>
    if l.ptySessionId.isNone && decide (l.depth < 16) then
      l.parentSessionUuid.bind fun uuid => sessions[uuid]?.map fun parent =>
        ⟨l.origin, parent.ptySessionId, parent.parentSessionUuid, l.depth + 1⟩
    else none

/-- `lineage`: the rounds from depth 0 to depth 16. -/
def lineage (sessions : Table Uuid ClaudeSession) (start : List LineageRow) : List LineageRow :=
  withRecursive (lineageNext sessions) 17 start

/-- `lineage_pty`. -/
def lineagePty (rows : List LineageRow) : List LineageRow :=
  distinctOn LineageRow.origin LineageRow.depth (rows.filter fun l => l.ptySessionId.isSome)

/-- A row of `dimensions`. -/
structure Dimension where
  sessionUuid : Uuid
  repo : Option RepoName

section Report

variable (limitOne : LimitOne RepoName) (s : UsageStore)

/-- `p_reverse`: the repository of a PTY whose current session this is. -/
def pReverse (sessionUuid : Uuid) : Option RepoName :=
  limitOne.pick <| (s.ptySessions.rows.filter fun pr =>
    pr.currentSessionUuid == some sessionUuid).map PtySessionRow.repo

/-- `hash_repo`: a repository whose path has the transcript's project hash. -/
def hashRepo (cs : ClaudeSession) : Option RepoName :=
  limitOne.pick <| (s.repoRuntimeState.filter fun r =>
    cs.projectHash == some (projectHashOf r.path)).map RepoRuntimeState.repoName

/-- `dimensions` of the report: every session with the repository it is attributed to. -/
def dimensions : List Dimension :=
  let lineagePty := lineagePty (lineage s.claudeSessions (lineageStart s.claudeSessions.toList))
  s.claudeSessions.toList.flatMap fun (uuid, cs) =>
    (leftJoin lineagePty fun lp => lp.origin = uuid).map fun lp =>
      let pDirect := (lp.bind LineageRow.ptySessionId).bind fun id => s.ptySessions[id]?
      ⟨uuid, ((pDirect.map PtySessionRow.repo).or (pReverse limitOne s uuid)).or
        (hashRepo limitOne s cs)⟩

/-- `attributed_repo`: the repository that a purge freezes a session's usage under. -/
def attributedRepo (sessionUuid : Uuid) : Option RepoName :=
  match s.claudeSessions[sessionUuid]? with
  | none => none
  | some cs =>
      let lineagePty := lineagePty (lineage s.claudeSessions (lineageStart [(sessionUuid, cs)]))
      let found := (leftJoin lineagePty fun lp => lp.origin = sessionUuid).map fun lp =>
        let pDirect := (lp.bind LineageRow.ptySessionId).bind fun id => s.ptySessions[id]?
        ((pDirect.map PtySessionRow.repo).or (pReverse limitOne s sessionUuid)).or
          (hashRepo limitOne s cs)
      found.head?.join

/-! ## The report -/

/-- `(day, repo, agent, model)` of a row of the report. -/
abbrev ReportKey := Day × Option String × String × String

instance : Std.TransOrd ReportKey := Std.instTransOrdProd

/-- The usage rows of one session, under the repository of its `dimensions` row. -/
def liveRows (sessionUuid : Uuid) (repo : Option RepoName) : List (ReportKey × Tokens) :=
  (s.rollups.rows sessionUuid).modelUsageDaily.toList.map fun (key, row) =>
    ((key.1, repo.map RepoName.name, row.agent, key.2), row.usage.tokens)

/-- `live`: `agent_model_usage_daily` joined with `dimensions`. -/
def live : List (ReportKey × Tokens) :=
  s.claudeSessions.toList.flatMap fun (uuid, _) =>
    (leftJoin (dimensions limitOne s) fun d => d.sessionUuid = uuid).flatMap fun d =>
      liveRows s uuid (d.bind Dimension.repo)

/-- `NULLIF(r.repo, '')`. -/
def repoOfRollup (repo : String) : Option String := if repo = "" then none else some repo

/-- The group of a row of `usage_daily_rollup`. -/
def reportKeyOf (key : UsageKey) : ReportKey := (key.1, repoOfRollup key.2.1, key.2.2.1, key.2.2.2)

/-- `archived`. -/
def archived : List (ReportKey × Tokens) := s.rollups.usage.rollup.toList.map (regroup reportKeyOf)

/-- The rows that `usage.sql` returns. -/
def usageReport : Table ReportKey Tokens := groupSum (live limitOne s ++ archived s)

/-! ## The purge -/

/-- `lock_and_check`. -/
def lockAndCheck (session : Uuid) : Except String Unit :=
  match s.claudeSessions[session]? with
  | none => .error s!"session {uuidText session} does not exist"
  | some guard =>
      if session ∈ s.rollups.purged then
        .error s!"session {uuidText session} is already purged"
      else if guard.archivedAt.isNone then
        .error s!"session {uuidText session} has no verified export"
      else if guard.archiveEvents ≠ some (s.eventCount session) then
        .error (s!"session {uuidText session} grew since its export " ++
          s!"({s.eventCount session} events, {guard.archiveEvents.getD 0} archived)")
      else if s.ptySessions.rows.any fun p => p.currentSessionUuid == some session && p.live then
        .error s!"session {uuidText session} is the current session of a live PTY"
      else .ok ()

/-- `purge_session`, on the tables of the report. -/
def purgeSessionUsage (session : Uuid) : Except String UsageStore := do
  let behind := ", ".intercalate s.projectionsBehind
  if s.projectionsBehind ≠ [] then
    .error (s!"derived data is still being repaired ({behind}); " ++
      "purging would freeze stale usage and digests")
  lockAndCheck s session
  if ¬ s.projectionCurrent session then
    .error s!"session {uuidText session} timeline has not caught up with its events"
  let repo := attributedRepo limitOne s session
  match purgeSession s.rollups session (repo.map RepoName.name) with
  | none => .error s!"session {uuidText session} is already purged"
  | some rollups =>
      .ok { s with rollups, eventCount := Function.update s.eventCount session 0 }

/-- One call of `purge_session`; a refused one changes nothing. -/
def purgeCall (session : Uuid) : UsageStore :=
  (purgeSessionUsage limitOne s session).toOption.getD s

/-- What happens to the tables. -/
inductive UsageStep
  | purge (session : Uuid)
  | withdraw (session : Uuid)
  /-- Ingest, projection or a replay changes a session's derived rows. -/
  | derive (session : Uuid) (rows : SessionRows)
  /-- Everything else: sessions, correlations, PTYs, repositories, exports. -/
  | change (claudeSessions : Table Uuid ClaudeSession) (ptySessions : Table Uuid PtySessionRow)
      (repoRuntimeState : List RepoRuntimeState) (eventCount : Uuid → Nat)
      (projectionsBehind : List String) (projectionCurrent : Uuid → Bool)

def usageStep : UsageStep → Option UsageStore
  | .purge session => (purgeSessionUsage limitOne s session).toOption
  | .withdraw session => (withdrawAndClear s.rollups session).map fun rollups => { s with rollups }
  | .derive session rows =>
      some { s with rollups := { s.rollups with
        rows := Function.update s.rollups.rows session rows } }
  | .change claudeSessions ptySessions repoRuntimeState eventCount behind current =>
      some { s with claudeSessions, ptySessions, repoRuntimeState, eventCount,
                    projectionsBehind := behind, projectionCurrent := current }

/-- A state in a run that starts with empty rollups and anything in the other tables. -/
def Reachable : Prop :=
  ∃ start rows, start.rollups = RollupDb.initial rows ∧
    Run (usageStep limitOne) anyStep start s

/-! ## The two attributions agree -/

variable {limitOne : LimitOne RepoName} {s t : UsageStore} {u : Uuid} {cs : ClaudeSession}

theorem filter_lineageNext (sessions : Table Uuid ClaudeSession) (rows : List LineageRow) :
    (lineageNext sessions rows).filter (fun l => l.origin = u)
      = lineageNext sessions (rows.filter fun l => l.origin = u) := by
  unfold lineageNext
  rw [List.filter_filterMap, List.filterMap_filter]
  apply List.filterMap_congr
  intro l _
  by_cases hl : l.origin = u
  · split
    · cases l.parentSessionUuid with
      | none => simp [hl]
      | some parent => cases hparent : sessions[parent]? <;> simp [hl, hparent]
    · simp [hl]
  · split
    · cases l.parentSessionUuid with
      | none => simp [hl]
      | some parent => cases hparent : sessions[parent]? <;> simp [hl, hparent]
    · simp [hl]

theorem filter_lineagePty (rows : List LineageRow) :
    (lineagePty rows).filter (fun l => l.origin = u)
      = (((rows.filter fun l => l.origin = u).filter fun l => l.ptySessionId.isSome).argmin
          LineageRow.depth).toList := by
  rw [lineagePty, filter_distinctOn, List.filter_filter, List.filter_filter]
  simp only [Bool.and_comm]

/-- The lineage of one session is its part of the lineage of all. -/
theorem filter_lineage (hu : s.claudeSessions[u]? = some cs) :
    (lineage s.claudeSessions (lineageStart s.claudeSessions.toList)).filter (fun l => l.origin = u)
      = lineage s.claudeSessions (lineageStart [(u, cs)]) := by
  rw [lineage, filter_withRecursive fun rows => filter_lineageNext s.claudeSessions rows]
  congr 1
  rw [lineageStart, List.filter_map]
  show List.map _ (s.claudeSessions.toList.filter fun e => decide (e.1 = u)) = _
  rw [Table.filter_key_toList hu]
  rfl

/-- The PTY that either query finds for a session. -/
theorem leftJoin_lineagePty (hu : s.claudeSessions[u]? = some cs) :
    ∃ found : Option LineageRow,
      leftJoin (lineagePty (lineage s.claudeSessions (lineageStart s.claudeSessions.toList)))
        (fun lp => lp.origin = u) = [found] ∧
      leftJoin (lineagePty (lineage s.claudeSessions (lineageStart [(u, cs)])))
        (fun lp => lp.origin = u) = [found] := by
  have hagain : (lineage s.claudeSessions (lineageStart [(u, cs)])).filter (fun l => l.origin = u)
      = lineage s.claudeSessions (lineageStart [(u, cs)]) := by
    rw [← filter_lineage hu, List.filter_filter]
    simp
  refine ⟨_, leftJoin_of_filter (filter_lineagePty _), leftJoin_of_filter ?_⟩
  rw [filter_lineagePty, filter_lineage hu, hagain]

/-- **The report attributes a session as its purge would.** -/
theorem filter_dimensions (hu : s.claudeSessions[u]? = some cs) :
    (dimensions limitOne s).filter (fun d => d.sessionUuid = u)
      = [⟨u, attributedRepo limitOne s u⟩] := by
  obtain ⟨found, hall, hone⟩ := leftJoin_lineagePty hu
  unfold dimensions
  rw [filter_flatMap_of_key (q := fun e => decide (e.1 = u)), Table.filter_key_toList hu]
  · simp only [List.flatMap_cons, List.flatMap_nil, List.append_nil]
    rw [hall]
    simp only [attributedRepo, hu, hone]
    rfl
  · rintro ⟨uuid, cs'⟩ - d hd
    obtain ⟨lp, -, rfl⟩ := List.mem_map.mp hd
    rfl

/-! ## A purge moves the rows -/

theorem live_eq : live limitOne s = s.claudeSessions.toList.flatMap fun e =>
    liveRows s e.1 (attributedRepo limitOne s e.1) := by
  apply List.flatMap_congr
  rintro ⟨uuid, cs⟩ hmem
  have hu := Std.ExtTreeMap.mem_toList_iff_getElem?_eq_some.mp hmem
  have hfilter : (dimensions limitOne s).filter (fun d => d.sessionUuid = uuid)
      = (some ⟨uuid, attributedRepo limitOne s uuid⟩ : Option Dimension).toList :=
    filter_dimensions hu
  show ((leftJoin (dimensions limitOne s) fun d => d.sessionUuid = uuid).flatMap fun d =>
      liveRows s uuid (d.bind Dimension.repo)) = _
  rw [leftJoin_of_filter hfilter]
  simp

/-- The rollup gives a repository back as the report names it. -/
theorem repoOfRollup_getD (repo : Option RepoName) :
    repoOfRollup ((repo.map RepoName.name).getD "") = repo.map RepoName.name := by
  cases repo with
  | none => rfl
  | some repo => simp [repoOfRollup, repo.name_ne]

/-- The contributions of a purged session are its rows in the report. -/
theorem contributions_perm (repo : Option RepoName) :
    ((usageContributions (s.rollups.rows u) ((repo.map RepoName.name).getD "")).toList.map
      (regroup reportKeyOf)).Perm (liveRows s u repo) := by
  have hkeys : (((s.rollups.rows u).modelUsageDaily.toList.map fun (key, row) =>
      ((key.1, (repo.map RepoName.name).getD "", row.agent, key.2), row.usage.tokens)).map
        Prod.fst).Nodup := by
    have hnodup := Table.nodup_keys (s.rollups.rows u).modelUsageDaily
    rw [List.Nodup, List.pairwise_map] at hnodup
    rw [List.map_map, List.Nodup, List.pairwise_map]
    apply hnodup.imp
    rintro ⟨⟨day, model⟩, row⟩ ⟨⟨day', model'⟩, row'⟩ hne heq
    apply hne
    simp only [Function.comp_apply, Prod.mk.injEq] at heq ⊢
    exact ⟨heq.1, heq.2.2.2⟩
  refine ((Table.toList_ofRows_perm hkeys).map (regroup reportKeyOf)).trans (.of_eq ?_)
  rw [List.map_map]
  apply List.map_congr_left
  rintro ⟨⟨day, model⟩, row⟩ -
  simp only [Function.comp_apply, regroup, reportKeyOf, repoOfRollup_getD]

theorem lockAndCheck_ok (h : lockAndCheck s u = .ok ()) :
    ∃ cs, s.claudeSessions[u]? = some cs ∧ u ∉ s.rollups.purged := by
  unfold lockAndCheck at h
  cases hu : s.claudeSessions[u]? with
  | none => simp [hu] at h
  | some cs =>
      refine ⟨cs, rfl, ?_⟩
      intro hpurged
      simp [hu, hpurged] at h

/-- What an accepted purge has found and what it leaves. -/
theorem purgeSessionUsage_ok (h : purgeSessionUsage limitOne s u = .ok t) :
    (∃ cs, s.claudeSessions[u]? = some cs) ∧ ∃ rollups,
      purgeSession s.rollups u ((attributedRepo limitOne s u).map RepoName.name) = some rollups ∧
      t = { s with rollups, eventCount := Function.update s.eventCount u 0 } := by
  simp only [purgeSessionUsage, bind, Except.bind] at h
  split at h
  · cases h
  · split at h
    · cases h
    · rename_i hcheck
      obtain ⟨cs, hu, -⟩ := lockAndCheck_ok hcheck
      split at h
      · cases h
      · split at h
        · cases h
        · rename_i rollups hrollups
          cases h
          exact ⟨⟨cs, hu⟩, rollups, hrollups, rfl⟩

/-- The rows of a session leave the live part, the others stay. -/
theorem live_perm (hu : s.claudeSessions[u]? = some cs)
    (hsessions : t.claudeSessions = s.claudeSessions)
    (hptys : t.ptySessions = s.ptySessions) (hrepos : t.repoRuntimeState = s.repoRuntimeState)
    (hcleared : (t.rollups.rows u).modelUsageDaily = ∅)
    (hothers : ∀ u' ≠ u, t.rollups.rows u' = s.rollups.rows u') :
    (live limitOne s).Perm (liveRows s u (attributedRepo limitOne s u) ++ live limitOne t) := by
  have hattributed (u' : Uuid) : attributedRepo limitOne t u' = attributedRepo limitOne s u' := by
    simp only [attributedRepo, pReverse, hashRepo, hsessions, hptys, hrepos]
  have hperm := Table.toList_perm_erase hu
  have hs := hperm.flatMap_right fun e => liveRows s e.1 (attributedRepo limitOne s e.1)
  have ht := hperm.flatMap_right fun e => liveRows t e.1 (attributedRepo limitOne t e.1)
  have hempty : liveRows t u (attributedRepo limitOne t u) = [] := by
    rw [liveRows, hcleared]
    rfl
  have hrest : ((s.claudeSessions.erase u).toList.flatMap fun e =>
        liveRows t e.1 (attributedRepo limitOne t e.1))
      = (s.claudeSessions.erase u).toList.flatMap fun e =>
        liveRows s e.1 (attributedRepo limitOne s e.1) := by
    apply List.flatMap_congr
    rintro ⟨u', cs'⟩ hmem
    rw [Std.ExtTreeMap.mem_toList_iff_getElem?_eq_some, Std.ExtTreeMap.getElem?_erase] at hmem
    have hne : u' ≠ u := by
      rintro rfl
      simp at hmem
    show liveRows t u' _ = liveRows s u' _
    rw [hattributed, liveRows, liveRows, hothers u' hne]
  rw [live_eq, live_eq, hsessions]
  refine hs.trans ?_
  rw [List.flatMap_cons]
  refine List.Perm.append_left _ ?_
  refine .trans ?_ ht.symm
  rw [List.flatMap_cons, hempty, List.nil_append, hrest]

/-- Rows that leave the live part and are added to the rollup are counted as before. -/
theorem usageReport_of_moved {mine : List (ReportKey × Tokens)} {new : Table UsageKey Tokens}
    (hlive : (live limitOne s).Perm (mine ++ live limitOne t))
    (hrollup : t.rollups.usage.rollup = Table.merge (· + ·) s.rollups.usage.rollup new)
    (hnew : (new.toList.map (regroup reportKeyOf)).Perm mine) :
    usageReport limitOne t = usageReport limitOne s := by
  have hadded : groupSum (archived t) = groupSum (archived s ++ mine) := by
    rw [archived, hrollup, groupSum_merge, List.map_append]
    exact groupSum_perm (hnew.append_left _)
  calc usageReport limitOne t
      = groupSum (archived t ++ live limitOne t) := groupSum_perm List.perm_append_comm
    _ = groupSum (archived s ++ mine ++ live limitOne t) := groupSum_append_congr hadded
    _ = groupSum (archived s ++ live limitOne s) := by
        rw [List.append_assoc]
        exact groupSum_perm (hlive.symm.append_left _)
    _ = usageReport limitOne s := groupSum_perm List.perm_append_comm

/-- **One purge keeps the report.** -/
theorem usageReport_purge (hbalanced : s.rollups.Balanced)
    (h : purgeSessionUsage limitOne s u = .ok t) :
    usageReport limitOne t = usageReport limitOne s := by
  obtain ⟨⟨cs, hu⟩, rollups, hpurge, rfl⟩ := purgeSessionUsage_ok h
  unfold purgeSession at hpurge
  split at hpurge
  · cases hpurge
  · rename_i hnew
    cases hpurge
    refine usageReport_of_moved (live_perm hu rfl rfl rfl ?_ ?_) ?_ (contributions_perm _)
    · show ((Function.update s.rollups.rows u _ u)).modelUsageDaily = ∅
      rw [Function.update_self]
      rfl
    · intro u' hne
      show Function.update s.rollups.rows u _ u' = _
      rw [Function.update_of_ne hne]
    · -- An unpurged session has no contributions yet, so what is added are its own rows.
      show Table.merge (· + ·) s.rollups.usage.rollup
        (Table.merge (fun _ r => r) (s.rollups.usage.contributions u) _) = _
      rw [hbalanced.1.others_empty u hnew, Ledger.merge_empty_left]

theorem balanced_purgeSessionUsage (hbalanced : s.rollups.Balanced)
    (h : purgeSessionUsage limitOne s u = .ok t) : t.rollups.Balanced := by
  obtain ⟨-, rollups, hpurge, rfl⟩ := purgeSessionUsage_ok h
  exact balanced_purgeSession hbalanced hpurge

theorem balanced_usageStep :
    Preserved (usageStep limitOne) anyStep fun s : UsageStore => s.rollups.Balanced := by
  intro s step t hs _ h
  cases step with
  | purge session =>
      cases hpurge : purgeSessionUsage limitOne s session with
      | error message => simp [usageStep, hpurge, Except.toOption] at h
      | ok t' =>
          have heq : t' = t := by simpa [usageStep, hpurge, Except.toOption] using h
          rw [← heq]
          exact balanced_purgeSessionUsage hs hpurge
  | withdraw session =>
      obtain ⟨rollups, hrollups, rfl⟩ := Option.map_eq_some_iff.mp h
      exact balanced_withdrawAndClear hs hrollups
  | derive session rows =>
      cases h
      exact hs
  | change =>
      cases h
      exact hs

theorem Reachable.balanced (h : Reachable limitOne s) : s.rollups.Balanced := by
  obtain ⟨start, rows, hstart, hrun⟩ := h
  apply hrun.invariant balanced_usageStep
  show start.rollups.Balanced
  rw [hstart]
  exact balanced_initial rows

/-- One call, accepted or refused. -/
theorem purgeCall_keeps (hbalanced : s.rollups.Balanced) (u : Uuid) :
    (purgeCall limitOne s u).rollups.Balanced ∧
      usageReport limitOne (purgeCall limitOne s u) = usageReport limitOne s := by
  unfold purgeCall
  cases h : purgeSessionUsage limitOne s u with
  | error message => exact ⟨hbalanced, rfl⟩
  | ok t => exact ⟨balanced_purgeSessionUsage hbalanced h, usageReport_purge hbalanced h⟩

/-- **Purging is invisible to the usage report.** In every state reached by ingest, correlations,
purges and restores, calls of `purge_session` on any sessions, in any order, leave the rows that
`usage.sql` returns as they are; so does each single call among them. -/
theorem usage_report_survives_purges (limitOne : LimitOne RepoName) (s : UsageStore)
    (hreach : Reachable limitOne s) (calls : List Uuid) :
    usageReport limitOne (calls.foldl (purgeCall limitOne) s) = usageReport limitOne s := by
  have hall : ∀ (calls : List Uuid) (s : UsageStore), s.rollups.Balanced →
      usageReport limitOne (calls.foldl (purgeCall limitOne) s) = usageReport limitOne s := by
    intro calls
    induction calls with
    | nil => exact fun _ _ => rfl
    | cons u calls ih =>
        intro s hbalanced
        obtain ⟨hnext, hreport⟩ : (purgeCall limitOne s u).rollups.Balanced ∧
            usageReport limitOne (purgeCall limitOne s u) = usageReport limitOne s :=
          purgeCall_keeps hbalanced u
        rw [List.foldl_cons, ih _ hnext, hreport]
  exact hall calls s hreach.balanced

/-! A compacted session whose predecessor ran in a PTY, and a session known by its project hash. -/

/-- The repository of the sample. -/
def sampleRepo : RepoName := ⟨"sulion", by decide⟩

/-- The sample's sessions 1 and 2 (a continuation of 1) and 3, all exported. -/
def sampleStore : UsageStore where
  rollups := .initial fun _ => sampleRows
  claudeSessions := Table.ofRows
    [(1, ⟨some 9, none, none, some 0, some 0⟩), (2, ⟨none, some 1, none, some 0, some 0⟩),
     (3, ⟨none, none, some "-home-sulion", some 0, some 0⟩)]
  ptySessions := Table.ofRows [(9, ⟨sampleRepo, none, false⟩)]
  repoRuntimeState := [⟨sampleRepo, "/home/sulion"⟩]
  eventCount := fun _ => 0
  projectionsBehind := []
  projectionCurrent := fun _ => true

example : ([1, 2, 3].map fun u => (attributedRepo .first sampleStore u).map RepoName.name)
    = [some "sulion", some "sulion", some "sulion"] := by decide +kernel

theorem sampleStore_reachable : Reachable .first sampleStore :=
  ⟨sampleStore, _, rfl, .refl _⟩

theorem usage_report_survives_purges_sampleStore :
    ([2, 3].foldl (purgeCall .first) sampleStore).rollups.purged = {2, 3} ∧
      usageReport .first ([2, 3].foldl (purgeCall .first) sampleStore)
        = usageReport .first sampleStore :=
  ⟨by decide +kernel, usage_report_survives_purges .first sampleStore sampleStore_reachable [2, 3]⟩

end Report

end Sulion.Archive
