import Sulion.Timeline.Rows

set_option autoImplicit false

/-! # The stored projection of one session

The committed timeline tables of a session, the queries the reducer makes on them inside its
transaction, and what persisting a batch's changes does to them.

File touches are stored per operation (their `touch_ord` only numbers them within it).
Retrieval sources and the revision counter, which nothing here reads, are left out.
-/

namespace Sulion.Timeline

open Sulion.Rust

/-- The timeline tables of a session, with its state row. -/
structure Projection where
  state : SessionState := {}
  turns : Table Int TurnRow := ∅
  /-- Keyed by turn and byte offset. -/
  items : Table (Int × Int) TimelineChunk := ∅
  ops : Table OpKey OpRow := ∅
  touches : Table OpKey (List TimelineFileTouch) := ∅
  usage : Table String MessageUsage := ∅
  links : Finset ChildLink := ∅

namespace Projection

/-! ## What the reducer reads -/

/-- `Backend::turn`. -/
def turn (db : Projection) (turnId : Int) : Option TurnRow := db.turns[turnId]?

/-- Operations with this pair id whose call precedes `before`. -/
def opsByPair (db : Projection) (pairId : String) (before : Int) : List OpRow :=
  (Table.rows db.ops).filter fun op => op.pairId = pairId ∧ op.callOffset < before

/-- `Backend::prompt_seen`. -/
def promptSeen (db : Projection) (eventUuid : String) : Bool :=
  (Table.rows db.turns).any fun turn => turn.promptEventUuid = some eventUuid

/-- `Backend::message_usage`. -/
def messageUsage (db : Projection) (messageId : String) : Option MessageUsage :=
  db.usage[messageId]?

/-- `raw_name = 'exec' OR raw_name LIKE '%.exec'`. -/
def isExecName (op : OpRow) : Bool :=
  op.rawName.any fun name => name = "exec" || endsWith name ".exec"

/-- `exec` calls before `before` that may enclose evidence started at `started`, with a
millisecond of slack on either side. -/
def execCandidates (db : Projection) (before : Int) (started : Option Timestamp) : List OpRow :=
  (Table.rows db.ops).filter fun op =>
    isExecName op && decide (op.callOffset < before) &&
      match started with
      | none => op.finishedAt.isNone
      | some start =>
          decide (op.callAt ≤ start + 1000) &&
            op.finishedAt.all fun finish => decide (start - 1000 ≤ finish)

/-- `Backend::ops_by_running_cell`. -/
def opsByRunningCell (db : Projection) (cell : String) : List OpRow :=
  (Table.rows db.ops).filter fun op => op.runningCell = some cell

end Projection

/-! ## What a batch changed -/

/-- Everything one batch changed, ready to persist. -/
structure Changes where
  state : SessionState
  turns : List TurnRow
  items : List (Int × Int × TimelineChunk)
  newOps : List OpRow
  /-- Existing operations updated, and whether their input changed. -/
  updatedOps : List (OpRow × Bool)
  /-- Operations whose file touches are replaced, with the new touches. -/
  touches : List (OpKey × List TimelineFileTouch)
  usage : List (String × MessageUsage)
  links : Finset ChildLink

def touchesPerOperation : Nat := 1024

/-- `upsert_turn`: the columns an update over a stored turn sets. -/
def upsertTurn (old turn : TurnRow) : TurnRow :=
  { old with
    preview := turn.preview
    endTimestamp := turn.endTimestamp
    durationMs := turn.durationMs
    eventCount := turn.eventCount
    operationCount := turn.operationCount
    thinkingCount := turn.thinkingCount
    hasErrors := turn.hasErrors
    inputTokens := turn.inputTokens
    outputTokens := turn.outputTokens }

/-- `update_operation`: the call's input is written only when evidence changed it. -/
def updateOperation (old : OpRow) (update : OpRow × Bool) : OpRow :=
  { old with
    input := if update.2 then update.1.input else old.input
    resultContent := update.1.resultContent
    resultPayload := update.1.resultPayload
    resultIsError := update.1.resultIsError
    isError := update.1.isError
    isPending := update.1.isPending
    changedAt := update.1.changedAt
    callError := update.1.callError
    runningCell := update.1.runningCell
    finishedAt := update.1.finishedAt }

/-- `persist`, with `write_state`. -/
def persist (db : Projection) (changes : Changes) : Projection :=
  { state := changes.state
    turns := Table.mergeList upsertTurn db.turns (changes.turns.map fun turn => (turn.turnId, turn))
    -- ON CONFLICT DO NOTHING
    items := Table.mergeList (fun old _ => old) db.items
      (changes.items.map fun (turnId, offset, chunk) => ((turnId, offset), chunk))
    ops := Table.updateList updateOperation
      (Table.mergeList (fun _ op => op) db.ops (changes.newOps.map fun op => (op.key, op)))
      (changes.updatedOps.map fun update => (update.1.key, update))
    touches := Table.mergeList (fun _ touches => touches) db.touches
      (changes.touches.map fun (key, touches) => (key, touches.take touchesPerOperation))
    usage := Table.mergeList (fun _ usage => usage) db.usage changes.usage
    links := db.links ∪ changes.links }

end Sulion.Timeline
