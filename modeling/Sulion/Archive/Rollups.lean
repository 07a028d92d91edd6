import Sulion.Lib.Ledger
import Sulion.Lib.Transition
import Sulion.Usage.Tokens
import Mathlib.Algebra.Order.Monoid.Prod

set_option autoImplicit false

/-! # The rollups a purge leaves behind

`purge_session` freezes a session's usage and file churn into two daily rollups and records
what it added; `withdraw_and_clear` takes it back. Both rollups are a `Ledger` over the
sessions (`Lib/Ledger.lean`): `usage_daily_rollup` with `usage_rollup_contributions`, and
`file_activity_daily` with `file_activity_contributions`.

The file models the parts of the two transactions that touch these tables, and proves that
over every run the rollups are exactly the sums over the purged sessions
(`rollups_exact`).
-/

namespace Sulion.Archive

open Usage Transition

/-! ## The rows a session is rolled up from -/

/-- `(day, repo, agent, model)`, the key of `usage_daily_rollup`. -/
abbrev UsageKey := Day × String × String × String

/-- `(repo, path, day)`, the key of `file_activity_daily`. -/
abbrev FileKey := String × String × Day

instance : Std.TransOrd UsageKey := Std.instTransOrdProd

instance : Std.TransOrd FileKey := Std.instTransOrdProd

/-- `(write_turns, read_turns)`. -/
abbrev TurnCounts := Int × Int

/-- A row of `agent_model_usage_daily`, under its `(day, model)`. -/
structure ModelDayRow where
  agent : String
  usage : CheckedTokens

/-- A row of `timeline_file_touches`. -/
structure FileTouchRow where
  turnId : Int
  repoName : String
  repoRelPath : String
  isWrite : Bool
  deriving DecidableEq

/-- The derived rows of one session that a purge reads. -/
structure SessionRows where
  modelUsageDaily : Table (Day × String) ModelDayRow
  fileTouches : List FileTouchRow
  /-- `end_timestamp` of each row of `timeline_turns`. -/
  turnEnds : Table Int Timestamp

/-- A session without derived rows. -/
def SessionRows.none : SessionRows := ⟨∅, [], ∅⟩

/-- The rows `roll_up_usage` inserts into `usage_rollup_contributions`. -/
def usageContributions (rows : SessionRows) (repoKey : String) : Table UsageKey Tokens :=
  Table.ofRows (rows.modelUsageDaily.toList.map fun (key, row) =>
    ((key.1, repoKey, row.agent, key.2), row.usage.tokens))

/-- The touches joined with their turns, each under its `(repo, path, day)`. -/
def touchesByDay (rows : SessionRows) : List (FileKey × FileTouchRow) :=
  rows.fileTouches.filterMap fun touch =>
    rows.turnEnds[touch.turnId]?.map fun finish =>
      ((touch.repoName, touch.repoRelPath, finish.dateNaive), touch)

/-- `COUNT(DISTINCT turn_id) FILTER (WHERE is_write = write)` of one group. -/
def countTurns (touches : List (FileKey × FileTouchRow)) (key : FileKey) (write : Bool) : Int :=
  ((touches.filter fun t => t.1 = key && t.2.isWrite == write).map fun t => t.2.turnId).dedup.length

/-- The rows `roll_up_file_activity` inserts into `file_activity_contributions`. -/
def fileContributions (rows : SessionRows) : Table FileKey TurnCounts :=
  let touches := touchesByDay rows
  Table.ofRows
    (touches.map fun t => (t.1, (countTurns touches t.1 true, countTurns touches t.1 false)))

theorem usageContributions_nonneg (rows : SessionRows) (repoKey : String) (k : UsageKey) :
    0 ≤ Ledger.amount (usageContributions rows repoKey) k := by
  cases hk : (usageContributions rows repoKey)[k]? with
  | none => simp [Ledger.amount, hk]
  | some r =>
      rw [Ledger.amount, hk]
      refine Table.forall_rows_ofRows (P := fun r => 0 ≤ r) (fun kr hkr => ?_) hk
      obtain ⟨row, _, rfl⟩ := List.mem_map.mp hkr
      exact row.2.usage.nonneg

theorem fileContributions_nonneg (rows : SessionRows) (k : FileKey) :
    0 ≤ Ledger.amount (fileContributions rows) k := by
  cases hk : (fileContributions rows)[k]? with
  | none => simp [Ledger.amount, hk]
  | some r =>
      rw [Ledger.amount, hk]
      refine Table.forall_rows_ofRows (P := fun r => 0 ≤ r) (fun kr hkr => ?_) hk
      obtain ⟨touch, _, rfl⟩ := List.mem_map.mp hkr
      exact ⟨Int.natCast_nonneg _, Int.natCast_nonneg _⟩

/-! ## The transactions -/

/-- The tables the two transactions share, over all sessions. -/
structure RollupDb where
  /-- Sessions whose `purged_at` is set. -/
  purged : Finset Uuid
  rows : Uuid → SessionRows
  usage : Ledger Uuid UsageKey Tokens
  files : Ledger Uuid FileKey TurnCounts

/-- No session purged and empty rollups; derived rows as they may be. -/
def RollupDb.initial (rows : Uuid → SessionRows) : RollupDb := ⟨∅, rows, .empty, .empty⟩

def rollUpUsage (db : RollupDb) (session : Uuid) (repoKey : String) : RollupDb :=
  { db with usage := db.usage.post session (usageContributions (db.rows session) repoKey) }

def rollUpFileActivity (db : RollupDb) (session : Uuid) : RollupDb :=
  { db with files := db.files.post session (fileContributions (db.rows session)) }

/-- `purge_session` on these tables. `repo` is what `attributed_repo` found; without one the
key is the empty string. A session that is already purged is refused. -/
def purgeSession (db : RollupDb) (session : Uuid) (repo : Option String) : Option RollupDb :=
  if session ∈ db.purged then none
  else
    let db := rollUpUsage db session (repo.getD "")
    let db := rollUpFileActivity db session
    some { db with
      rows := Function.update db.rows session
        { SessionRows.none with turnEnds := (db.rows session).turnEnds }
      purged := insert session db.purged }

/-- `withdraw_and_clear` on these tables, reached for a purged session only. -/
def withdrawAndClear (db : RollupDb) (session : Uuid) : Option RollupDb :=
  if session ∈ db.purged then
    some
      { purged := db.purged.erase session
        rows := Function.update db.rows session .none
        usage := db.usage.withdraw session
        files := db.files.withdraw session }
  else none

/-- What happens to the tables: a purge, a restore's withdrawal, or any change of a session's
derived rows (ingest, projection, replay). -/
inductive RollupStep
  | purge (session : Uuid) (repo : Option String)
  | withdraw (session : Uuid)
  | derive (session : Uuid) (rows : SessionRows)

def rollupStep (db : RollupDb) : RollupStep → Option RollupDb
  | .purge session repo => purgeSession db session repo
  | .withdraw session => withdrawAndClear db session
  | .derive session rows => some { db with rows := Function.update db.rows session rows }

/-! ## The rollups are the sums over the purged sessions -/

/-- Both ledgers are balanced over the purged sessions. -/
def RollupDb.Balanced (db : RollupDb) : Prop :=
  db.usage.Balanced db.purged ∧ db.files.Balanced db.purged

theorem balanced_initial (rows : Uuid → SessionRows) : (RollupDb.initial rows).Balanced :=
  ⟨Ledger.balanced_empty, Ledger.balanced_empty⟩

theorem balanced_purgeSession {db db' : RollupDb} {session : Uuid} {repo : Option String}
    (hdb : db.Balanced) (h : purgeSession db session repo = some db') : db'.Balanced := by
  unfold purgeSession at h
  split at h
  · cases h
  · rename_i hs
    cases h
    exact ⟨hdb.1.post hs (usageContributions_nonneg _ _),
      hdb.2.post hs (fileContributions_nonneg _)⟩

theorem balanced_withdrawAndClear {db db' : RollupDb} {session : Uuid}
    (hdb : db.Balanced) (h : withdrawAndClear db session = some db') : db'.Balanced := by
  unfold withdrawAndClear at h
  split at h
  · rename_i hs
    cases h
    exact ⟨hdb.1.withdraw hs, hdb.2.withdraw hs⟩
  · cases h

theorem balanced_preserved : Preserved rollupStep anyStep RollupDb.Balanced := by
  intro db step db' hdb _ h
  cases step with
  | purge session repo => exact balanced_purgeSession hdb h
  | withdraw session => exact balanced_withdrawAndClear hdb h
  | derive session rows =>
      cases h
      exact hdb

/-- **Purge and restore are inverse on the rollups.** In every state of every run that starts
with empty rollups, each rollup is at every key the sum of the contributions of the purged
sessions, a session that is not purged has no contribution rows, and for a purged session the
clamped subtraction of `withdraw_and_clear` is the plain one. -/
theorem rollups_exact (rows : Uuid → SessionRows) (db : RollupDb)
    (hrun : Run rollupStep anyStep (RollupDb.initial rows) db) :
    (∀ k, Ledger.amount db.usage.rollup k
        = ∑ s ∈ db.purged, Ledger.amount (db.usage.contributions s) k) ∧
    (∀ k, Ledger.amount db.files.rollup k
        = ∑ s ∈ db.purged, Ledger.amount (db.files.contributions s) k) ∧
    (∀ s ∉ db.purged, db.usage.contributions s = ∅ ∧ db.files.contributions s = ∅) ∧
    (∀ s ∈ db.purged,
      (db.usage.withdraw s).rollup
        = Table.updateFrom (fun r c => r - c) db.usage.rollup (db.usage.contributions s) ∧
      (db.files.withdraw s).rollup
        = Table.updateFrom (fun r c => r - c) db.files.rollup (db.files.contributions s)) := by
  obtain ⟨hu, hf⟩ := hrun.invariant balanced_preserved (balanced_initial rows)
  exact ⟨hu.rollup_eq, hf.rollup_eq, fun s hs => ⟨hu.others_empty s hs, hf.others_empty s hs⟩,
    fun s hs => ⟨hu.withdraw_eq_sub hs, hf.withdraw_eq_sub hs⟩⟩

/-- One day on one model, and one turn that wrote one file. -/
def sampleRows : SessionRows where
  modelUsageDaily := (∅ : Table (Day × String) ModelDayRow).insert (20000, "opus")
    ⟨"claude-code", Tokens.of 10 5 0 0 7, fun c => by cases c <;> decide⟩
  fileTouches := [⟨3, "sulion", "README.md", true⟩]
  turnEnds := (∅ : Table Int Timestamp).insert 3 1728000000000000

/-- Two sessions in one repository are purged and the first is restored. -/
def sampleSteps : List RollupStep :=
  [.purge 1 (some "sulion"), .purge 2 (some "sulion"), .withdraw 1]

theorem rollups_exact_sampleSteps :
    ∃ db, runList rollupStep (RollupDb.initial fun _ => sampleRows) sampleSteps = some db ∧
      db.purged = {2} ∧
      Ledger.amount db.usage.rollup (20000, "sulion", "claude-code", "opus")
        = ∑ s ∈ db.purged,
            Ledger.amount (db.usage.contributions s) (20000, "sulion", "claude-code", "opus") := by
  refine ⟨_, rfl, by decide, ?_⟩
  exact (rollups_exact (fun _ => sampleRows) _ (.of_runList sampleSteps rfl)).1 _

end Sulion.Archive
