import Mathlib.Data.Finset.Basic
import Sulion.Usage.Updates

set_option autoImplicit false

/-! # The usage tables of a session

The rows of one session in `agent_session_usage`, `agent_usage_daily`,
`agent_model_usage_daily` and `agent_usage_responses`, and the SQL statements that write
them. A statement fails when a row it writes does not fit: `BIGINT` columns hold an `i64`, and
the tables check that counters are not negative.
-/

namespace Sulion.Usage

open Ingest

/-! ## Rows -/

def TokenColumn.all : List TokenColumn :=
  [.inputTokens, .cachedInputTokens, .cacheWriteInputTokens, .cacheWrite1hInputTokens,
    .outputTokens]

def SpendColumn.all : List SpendColumn :=
  TokenColumn.all.map .token ++ [.reasoningOutputTokens, .totalTokens]

theorem TokenColumn.mem_all (column : TokenColumn) : column ∈ all := by cases column <;> decide

theorem SpendColumn.mem_all (column : SpendColumn) : column ∈ all := by
  cases column with
  | token column => exact List.mem_append_left _ (List.mem_map_of_mem (TokenColumn.mem_all column))
  | reasoningOutputTokens => decide
  | totalTokens => decide

/-- The counters fit their columns. -/
def Tokens.Fit (t : Tokens) : Prop := ∀ column ∈ TokenColumn.all, IsCount (t column)

def Spend.Fit (s : Spend) : Prop := ∀ column ∈ SpendColumn.all, IsCount (s column)

instance (n : Int) : Decidable (IsCount n) := inferInstanceAs (Decidable (_ ∧ _))

instance (t : Tokens) : Decidable t.Fit :=
  inferInstanceAs (Decidable (∀ column ∈ TokenColumn.all, IsCount (t column)))

instance (s : Spend) : Decidable s.Fit :=
  inferInstanceAs (Decidable (∀ column ∈ SpendColumn.all, IsCount (s column)))

theorem Tokens.fit_iff {t : Tokens} : t.Fit ↔ ∀ column, IsCount (t column) :=
  ⟨fun h column => h column column.mem_all, fun h column _ => h column⟩

theorem Spend.fit_iff {s : Spend} : s.Fit ↔ ∀ column, IsCount (s column) :=
  ⟨fun h column => h column column.mem_all, fun h column _ => h column⟩

/-- A row of `agent_session_usage`. -/
structure SessionRow where
  agent : String
  spend : Spend
  contextTokens : Option Int
  modelContextWindow : Option Int
  lastByteOffset : Int
  observedAt : Timestamp
  lastUsageMessageId : Option String
  codexResponseRecords : Bool

/-- The `CHECK`s of `agent_session_usage`. -/
structure SessionRow.Fit (row : SessionRow) : Prop where
  spend : row.spend.Fit
  context : ∀ tokens ∈ row.contextTokens, 0 ≤ tokens
  window : ∀ tokens ∈ row.modelContextWindow, 0 < tokens

instance (row : SessionRow) : Decidable row.Fit :=
  decidable_of_iff
    (row.spend.Fit ∧ (∀ tokens ∈ row.contextTokens, 0 ≤ tokens) ∧
      ∀ tokens ∈ row.modelContextWindow, 0 < tokens)
    ⟨fun ⟨h1, h2, h3⟩ => ⟨h1, h2, h3⟩, fun ⟨h1, h2, h3⟩ => ⟨h1, h2, h3⟩⟩

/-- What `upsert_from_event` reads of the session row. -/
structure StoredUsage where
  tokens : Tokens
  lastUsageMessageId : Option String
  lastByteOffset : Int
  codexResponseRecords : Bool

def SessionRow.stored (row : SessionRow) : StoredUsage :=
  ⟨row.spend.tokens, row.lastUsageMessageId, row.lastByteOffset, row.codexResponseRecords⟩

/-- A row of `agent_usage_daily`, under its day. -/
structure DailyRow where
  agent : String
  spend : Spend

/-- A row of `agent_model_usage_daily`, under its `(day, model)`. -/
structure ModelRow where
  agent : String
  tokens : Tokens
  lastUsageMessageId : Option String

/-- The usage rows of one session. -/
structure UsageTables where
  session : Option SessionRow
  daily : Table Day DailyRow
  models : Table (Day × String) ModelRow
  responses : Finset String

def UsageTables.empty : UsageTables := ⟨none, ∅, ∅, ∅⟩

/-! ## Statements -/

/-- The row `store_usage` proposes. -/
def proposedRow (source : TranscriptSource) (byteOffset : Int) (observedAt : Timestamp)
    (usage : UsageUpdate) (responseRecord : Bool) : SessionRow where
  agent := source.agentId
  spend := usage.spend
  contextTokens := usage.contextTokens
  modelContextWindow := usage.modelContextWindow
  lastByteOffset := byteOffset
  observedAt := observedAt
  lastUsageMessageId := usage.messageId
  codexResponseRecords := responseRecord

/-- The row `ON CONFLICT DO UPDATE` leaves for a proposed row behind the stored one. -/
def SessionRow.upsert (row excluded : SessionRow) (isDelta : Bool) : SessionRow where
  agent := excluded.agent
  spend :=
    if !isDelta then excluded.spend
    else if excluded.lastUsageMessageId.isSome ∧
        excluded.lastUsageMessageId = row.lastUsageMessageId then row.spend
    else row.spend + excluded.spend
  contextTokens := excluded.contextTokens.or row.contextTokens
  modelContextWindow := excluded.modelContextWindow.or row.modelContextWindow
  lastByteOffset := excluded.lastByteOffset
  observedAt := excluded.observedAt
  lastUsageMessageId := excluded.lastUsageMessageId.or row.lastUsageMessageId
  codexResponseRecords := row.codexResponseRecords || excluded.codexResponseRecords

/-- `store_usage`. The proposed row is checked before the conflict is looked at. -/
def storeUsage (db : UsageTables) (source : TranscriptSource) (byteOffset : Int)
    (observedAt : Timestamp) (usage : UsageUpdate) (responseRecord : Bool) : Option UsageTables :=
  let excluded := proposedRow source byteOffset observedAt usage responseRecord
  let row := match db.session with
    | none => excluded
    | some row =>
        if row.lastByteOffset < byteOffset then row.upsert excluded (usage.mode = .delta) else row
  if excluded.Fit ∧ row.Fit then some { db with session := some row } else none

/-- `add_model_daily`, for the day of `observedAt`. -/
def addModelDaily (db : UsageTables) (agent model : String) (observedAt : Timestamp)
    (usage : Tokens) (messageId : Option String) : Option UsageTables :=
  let key := (observedAt.dateNaive, model)
  let row := match db.models[key]? with
    | none => ⟨agent, usage, messageId⟩
    | some row => ⟨agent, row.tokens + usage, messageId.or row.lastUsageMessageId⟩
  if usage.Fit ∧ row.tokens.Fit then some { db with models := db.models.insert key row } else none

/-- `snapshot_daily`: the day's row becomes a copy of the session's. -/
def snapshotDaily (db : UsageTables) (observedAt : Timestamp) : UsageTables :=
  match db.session with
  | none => db
  | some row => { db with daily := db.daily.insert observedAt.dateNaive ⟨row.agent, row.spend⟩ }

/-- `claim_response`, and whether the response is new. -/
def claimResponse (db : UsageTables) (responseId : String) : UsageTables × Bool :=
  ({ db with responses := insert responseId db.responses }, decide (responseId ∉ db.responses))

/-- `update_context`. -/
def updateContext (db : UsageTables) (byteOffset : Int) (observedAt : Timestamp)
    (usage : UsageUpdate) : Option UsageTables :=
  match db.session with
  | none => some db
  | some row =>
      let row :=
        if row.lastByteOffset < byteOffset then
          { row with
            contextTokens := usage.contextTokens.or row.contextTokens
            modelContextWindow := usage.modelContextWindow.or row.modelContextWindow
            lastByteOffset := byteOffset
            observedAt := observedAt }
        else row
      if row.Fit then some (snapshotDaily { db with session := some row } observedAt) else none

/-- `daily_delta`: what an update adds to its day. A cumulative total that shrank adds
nothing. -/
def dailyDelta (usage : UsageUpdate) (previous : Option StoredUsage) : Tokens :=
  match usage.mode with
  | .delta =>
      if usage.messageId.isSome ∧ (previous.bind (·.lastUsageMessageId)) = usage.messageId then 0
      else fun column => max (usage.spend (.token column)) 0
  | .cumulative => fun column =>
      max (saturatingSub (usage.spend (.token column))
        (previous.elim 0 fun row => row.tokens column)) 0

end Sulion.Usage
