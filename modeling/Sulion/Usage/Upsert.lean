import Sulion.Usage.Claude

set_option autoImplicit false

/-! # Usage as events arrive

`upsert_from_event` runs in the transaction that inserts the event, so a failing statement
takes the event back with it. `ingestUsage` is that transaction as far as usage goes.
-/

namespace Sulion.Usage

open Rust Ingest

variable (jsonbText : Json → String)

/-- The model of the last turn context up to an event. -/
def recordedModel (events : EventTable) (byteOffset : Int) : Option String :=
  (lastEventBefore events (byteOffset + 1) fun row =>
    storedEventKind .codex row.payload == "turn_context" &&
      row.subtype != some inheritedHistory &&
      (row.payload.textAt jsonbText ["payload", "model"]).isSome).bind fun e =>
    e.2.payload.textAt jsonbText ["payload", "model"]

/-- The end of `upsert_from_event`, for an update that is charged. -/
def chargeUsage (db : UsageTables) (events : EventTable) (source : TranscriptSource)
    (byteOffset : Int) (observedAt : Timestamp) (usage : UsageUpdate)
    (previous : Option StoredUsage) (responseRecord : Bool) : Option UsageTables := do
  let delta := dailyDelta usage previous
  let recorded :=
    if source = .codex ∧ usage.model.isNone then recordedModel jsonbText events byteOffset
    else none
  let model := (usage.model.or recorded).getD unknownModel
  let db ← storeUsage db source byteOffset observedAt usage responseRecord
  let db ← addModelDaily db source.agentId model observedAt delta usage.messageId
  some (snapshotDaily db observedAt)

def upsertFromEvent (db : UsageTables) (events : EventTable) (source : TranscriptSource)
    (byteOffset : Int) (observedAt : Timestamp) (value : Json) : Option UsageTables :=
  match extractUsage source value with
  | none => some db
  | some usage =>
      let previous := db.session.map SessionRow.stored
      if previous.any fun row => byteOffset ≤ row.lastByteOffset then some db
      else if source = .claudeCode then
        Claude.applyResponse jsonbText db events byteOffset observedAt usage
      else
        let responseRecord := decide (source = .codex ∧ usage.mode = .delta)
        if source = .codex ∧ !responseRecord ∧ previous.any fun row => row.codexResponseRecords then
          updateContext db byteOffset observedAt usage
        else if responseRecord then
          let (db, claimed) := claimResponse db (usage.messageId.getD "")
          if claimed then
            chargeUsage jsonbText db events source byteOffset observedAt usage previous
              responseRecord
          else some db
        else chargeUsage jsonbText db events source byteOffset observedAt usage previous
          responseRecord

/-- A session's events and usage rows. -/
structure UsageState where
  events : EventTable
  tables : UsageTables

def UsageState.empty : UsageState := ⟨∅, .empty⟩

/-- A transcript record under its byte offset. -/
abbrev SourceEvent := Int × EventRow

/-- The events come in byte order. -/
def ByteOrder (events : List SourceEvent) : Prop := events.Pairwise fun e e' => e.1 < e'.1

/-- The event is inserted and its usage applied. -/
def applyRecord (source : TranscriptSource) (s : UsageState) (e : SourceEvent) :
    Option UsageState :=
  let events := s.events.insert e.1 e.2
  (upsertFromEvent jsonbText s.tables events source e.1 e.2.timestamp e.2.payload).map
    fun tables => ⟨events, tables⟩

/-- The event is inserted, and its usage applied unless it is inherited. -/
def ingestUsage (source : TranscriptSource) (s : UsageState) (e : SourceEvent) :
    Option UsageState :=
  if e.2.subtype = some inheritedHistory then some { s with events := s.events.insert e.1 e.2 }
  else applyRecord jsonbText source s e

/-- The events one after the other; `none` when one of them fails. -/
def ingestAll (source : TranscriptSource) : UsageState → List SourceEvent → Option UsageState
  | s, [] => some s
  | s, e :: events => (ingestUsage jsonbText source s e).bind fun s => ingestAll source s events

end Sulion.Usage
