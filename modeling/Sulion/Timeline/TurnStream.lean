import Sulion.Lib.Transition
import Sulion.Timeline.Changes
import Sulion.Timeline.StreamReads

set_option autoImplicit false

/-! # The resumable turn stream

One client follows one turn while the session's batches commit. `begin` fixes a checkpoint and
sends a header; each `next` sends a batch, and the last one completes the sync. Both are
several queries, and a commit may come between any two of them. Records travel to the client
one by one; a client that abandons a stream loses those still under way and resumes with the
cursor of the last one it received.

No rebuild or purge happens here, so the generation stays the same.
-/

namespace Sulion.Timeline.Stream

open Sulion.Rust

/-! ## The client -/

inductive Record
  | header (cursor : Cursor) (reset : Bool)
  | batch (items : List (Int × TimelineChunk)) (operations : List OperationValue) (cursor : Cursor)
  | complete (cursor : Cursor)
  | reset

structure Client where
  cursor : Option Cursor := none
  items : Table Int TimelineChunk := ∅
  /-- By the id of the pair, which is all that a value says of its operation. -/
  operations : Table String OperationValue := ∅

/-- A value is merged unless a newer one is there. -/
def mergeOperation (operations : Table String OperationValue) (value : OperationValue) :
    Table String OperationValue :=
  match operations[value.pair.id]? with
  | some prior =>
      if value.bodyVersion < prior.bodyVersion then operations
      else operations.insert value.pair.id value
  | none => operations.insert value.pair.id value

def Client.receive (client : Client) : Record → Client
  | .header cursor startOver =>
      if startOver then { cursor := some cursor } else { client with cursor := some cursor }
  | .batch items operations cursor =>
      { cursor := some cursor
        items := Table.mergeList (fun _ item => item) client.items items
        operations := operations.foldl mergeOperation client.operations }
  | .complete cursor => { client with cursor := some cursor }
  | .reset => {}

/-- A sync up to `through` is complete and no other has begun. -/
def Client.Complete (client : Client) (through : Int) : Prop :=
  ∃ cursor, client.cursor = some cursor ∧ cursor.through = none ∧ cursor.since = through

/-! ## The server -/

/-- Where a stream is. -/
inductive Stage
  | idle
  /-- The checkpoint is fixed, the turn not looked up yet. -/
  | opening (cursor : Cursor) (startOver : Bool)
  /-- Before the next record. -/
  | ready (cursor : Cursor)
  /-- A page of items is read, with the calls it refers to. -/
  | items (cursor : Cursor) (items : List (Int × TimelineChunk)) (references : List String)
  /-- The rows of those calls are read. -/
  | referenced (cursor : Cursor) (items : List (Int × TimelineChunk)) (rows : List OpRow)
  /-- A page of operations is read. -/
  | scanned (cursor : Cursor) (rows : List OpRow)

structure State where
  db : Projection := {}
  /-- The links that other sessions' batches stored. -/
  otherLinks : Finset ChildLink := ∅
  stage : Stage := .idle
  /-- Records sent and not received yet. -/
  inFlight : List Record := []
  client : Client := {}

def State.send (s : State) (record : Record) (stage : Stage) : State :=
  { s with stage := stage, inFlight := s.inFlight ++ [record] }

inductive Action
  | commit (context : Context) (events : List StoredEvent)
  | link (link : ChildLink)
  | begin
  /-- The next query of the stream. -/
  | read
  | receive
  | abandon

section Server

variable (jsonbText : Json → String) (session : Uuid) (turn : Int)

/-- The next query of the stream, with what follows it up to the query after it. -/
def read (s : State) : Option State :=
  let links := s.db.links ∪ s.otherLinks
  match s.stage with
  | .idle => none
  | .opening cursor startOver =>
      if s.db.turns[turn]?.isSome then some (s.send (.header cursor startOver) (.ready cursor))
      -- turn not found
      else some { s with stage := .idle }
  | .ready cursor =>
      if cursor.turnId ≠ turn then some (s.send .reset .idle)
      else if cursor.itemsDone then
        let rows := operationRows s.db links session turn cursor none
        some { s with stage := .scanned (cursor.afterOperations rows) rows }
      else
        let rows := itemRows s.db turn cursor
        let items := rows.map fun row => (row.1, classifyBookkeeping row.2)
        let references := items.flatMap fun item => chunkPairIds item.2
        let cursor := cursor.afterItems rows
        if references.isEmpty then some (s.send (.batch items [] cursor) (.ready cursor))
        else some { s with stage := .items cursor items references }
  | .items cursor items references =>
      let rows := operationRows s.db links session turn cursor (some references)
      some { s with stage := .referenced cursor items rows }
  | .referenced cursor items rows =>
      some (s.send (.batch items (operationValues jsonbText s.db rows) cursor) (.ready cursor))
  | .scanned cursor rows =>
      if rows.isEmpty then
        match cursor.through with
        | some through => some (s.send (.complete (cursor.completed through)) .idle)
        -- missing stream checkpoint
        | none => some { s with stage := .idle }
      else some (s.send (.batch [] (operationValues jsonbText s.db rows) cursor) (.ready cursor))

def step (s : State) : Action → Option State
  | .commit context events =>
      if Ascending s.db.state.projectedThrough events then
        (projectBatch context s.db events).map fun db => { s with db := db }
      else none
  | .link link => some { s with otherLinks := insert link s.otherLinks }
  | .begin =>
      match s.stage, s.inFlight with
      | .idle, [] =>
          (beginCursor s.db turn s.client.cursor).map fun (cursor, startOver) =>
            { s with stage := .opening cursor startOver }
      | _, _ => none
  | .read => read jsonbText session turn s
  | .receive =>
      match s.inFlight with
      | [] => none
      | record :: rest => some { s with client := s.client.receive record, inFlight := rest }
  | .abandon => some { s with stage := .idle, inFlight := [] }

end Server

end Sulion.Timeline.Stream
