import Sulion.Usage.Statements

set_option autoImplicit false

/-! # Claude usage: one charge per response

Claude Code repeats a response's usage on each of its records, and a later record may correct
an earlier one. `apply_response` therefore charges the difference to the previous record of
the same message, moves the whole charge between the buckets of
`agent_model_usage_daily`, and drops a bucket that no response is left in.

`jsonb_text` is how Postgres prints a JSON value that is not a string.
-/

namespace Sulion.Usage.Claude

open Rust Ingest

variable (jsonbText : Json → String)

/-- The `WHERE` of the receipt queries: an assistant record whose usage is an object. -/
def isReceipt (row : EventRow) : Bool :=
  storedEventKind .claudeCode row.payload == "assistant" &&
    ((row.payload.at? ["message", "usage"]).or (row.payload.get "usage")).any Json.isObject

/-- The record of this message before `byteOffset`. -/
def priorReceipt (events : EventTable) (byteOffset : Int) (messageId : Option String) :
    Option EventRow :=
  messageId.bind fun id =>
    (lastEventBefore events byteOffset fun row =>
      isReceipt row && row.payload.textAt jsonbText ["message", "id"] == some id).map Prod.snd

/-- `COALESCE(payload #>> '{message,id}', byte_offset::TEXT)`. -/
def receiptKey (byteOffset : Int) (row : EventRow) : String :=
  (row.payload.textAt jsonbText ["message", "id"]).getD (toString byteOffset)

/-- `SELECT DISTINCT ON (key) … ORDER BY key, byte_offset DESC`: the last receipt of each
key. -/
def distinctReceipts (events : EventTable) : List EventRow :=
  Table.rows (Table.ofRows ((events.toList.filter fun e => isReceipt e.2).map fun e =>
    (receiptKey jsonbText e.1 e.2, e.2)))

/-- The bucket the deletion looks for. -/
def receiptBucket (row : EventRow) : Day × String :=
  (row.timestamp.dateNaive,
    (row.payload.textAt jsonbText ["message", "model"]).getD unknownModel)

/-- Delete the buckets that hold no receipt. -/
def deleteEmptyBuckets (db : UsageTables) (events : EventTable) : UsageTables :=
  { db with
    models := db.models.filter fun key _ =>
      (distinctReceipts jsonbText events).any fun row => receiptBucket jsonbText row == key }

/-- The sums per day, in day order. -/
def dailySums (models : Table (Day × String) ModelRow) : List (Day × Tokens) :=
  (Table.mergeList (· + ·) ∅ (models.toList.map fun e => (e.1.1, e.2.tokens))).toList

/-- `SUM(…) OVER (ORDER BY day ROWS UNBOUNDED PRECEDING)`. -/
def runningSums : Tokens → List (Day × Tokens) → List (Day × Tokens)
  | _, [] => []
  | before, (day, sum) :: days => (day, before + sum) :: runningSums (before + sum) days

/-- A rebuilt row of `agent_usage_daily`. -/
def snapshotRow (tokens : Tokens) : DailyRow :=
  ⟨TranscriptSource.claudeCode.agentId, .of tokens 0 tokens.sum⟩

def rebuildDailySnapshots (db : UsageTables) : Option UsageTables :=
  let rows := (runningSums 0 (dailySums db.models)).map fun e => (e.1, snapshotRow e.2)
  if ∀ e ∈ rows, e.2.spend.Fit then some { db with daily := Table.ofRows rows } else none

/-- The session row after its usage columns were updated. -/
def updatedRow (row : SessionRow) (byteOffset : Int) (observedAt : Timestamp)
    (usage : UsageUpdate) (delta : Spend) : SessionRow :=
  { row with
    spend := row.spend + delta
    contextTokens := usage.contextTokens
    modelContextWindow := usage.modelContextWindow.or row.modelContextWindow
    lastByteOffset := byteOffset
    observedAt := observedAt
    lastUsageMessageId := usage.messageId }

/-- The row `INSERT … ON CONFLICT DO NOTHING` makes sure of. -/
def insertedRow (byteOffset : Int) (observedAt : Timestamp) : SessionRow where
  agent := TranscriptSource.claudeCode.agentId
  spend := 0
  contextTokens := none
  modelContextWindow := none
  lastByteOffset := byteOffset
  observedAt := observedAt
  lastUsageMessageId := none
  codexResponseRecords := false

/-- The two statements on `agent_session_usage`. -/
def updateSession (db : UsageTables) (byteOffset : Int) (observedAt : Timestamp)
    (usage : UsageUpdate) (delta : Spend) : Option UsageTables :=
  let row := updatedRow (db.session.getD (insertedRow byteOffset observedAt)) byteOffset observedAt
    usage delta
  if row.Fit then some { db with session := some row } else none

/-- Take the previous contribution out of its bucket. -/
def withdrawModel (db : UsageTables) (key : Day × String) (tokens : Tokens) : Option UsageTables :=
  match db.models[key]? with
  | none => some db
  | some row =>
      let row := { row with tokens := row.tokens - tokens }
      if row.tokens.Fit then some { db with models := db.models.insert key row } else none

/-- `apply_response`. -/
def applyResponse (db : UsageTables) (events : EventTable) (byteOffset : Int)
    (observedAt : Timestamp) (usage : UsageUpdate) : Option UsageTables := do
  let prior := priorReceipt jsonbText events byteOffset usage.messageId
  let previous := prior.bind fun row => (extractClaudeUsage row.payload).map (row.timestamp, ·)
  let delta := previous.elim usage.spend fun p => usage.spend - p.2.spend
  let db ← updateSession db byteOffset observedAt usage delta
  let db ← match previous with
    | none => some db
    | some (time, previous) =>
        withdrawModel db (time.dateNaive, previous.model.getD unknownModel) previous.spend.tokens
  let db ← addModelDaily db TranscriptSource.claudeCode.agentId (usage.model.getD unknownModel)
    observedAt (dailyDelta usage none) usage.messageId
  let db := match previous with
    | none => db
    | some (time, previous) =>
        if time.dateNaive ≠ observedAt.dateNaive ∨ previous.model ≠ usage.model then
          deleteEmptyBuckets jsonbText db events
        else db
  if prior.any fun row => row.timestamp.dateNaive ≠ observedAt.dateNaive then
    rebuildDailySnapshots db
  else some (snapshotDaily db observedAt)

end Sulion.Usage.Claude
