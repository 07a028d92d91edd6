import Sulion.Lib.Paging
import Sulion.Lib.Totals
import Sulion.Timeline.Projection

set_option autoImplicit false

/-! # Reading a turn in pages

The reads that turn streams and digests are made of. A stream's items come in pages up to a
checkpoint, its operations in pages of those changed behind the cursor; each read is a query of
its own. Operations cross the wire compacted: of their input only the texts that headers
show, each cut, and nothing of their result.

The compacted input's plan commands and failed runtime items, which no header reads, and the
child transcripts attached to calls are left out.
-/

namespace Sulion.Timeline.Stream

open Sulion.Rust

def batchSize : Nat := 64

structure Cursor where
  turnId : Int
  /-- Operations changed up to here have been sent. -/
  since : Int
  /-- The checkpoint of the sync under way. -/
  through : Option Int
  itemAfter : Int
  operationAfter : Int
  itemsDone : Bool
  deriving DecidableEq

/-! ## Compacted operations -/

/-- The keys of an input whose texts are sent. -/
def compactKeys : List String :=
  ["path", "file_path", "command", "cmd", "description", "agent", "pattern", "url", "query"]

/-- `left(input->>key, 240)`. -/
def compactText (jsonbText : Json → String) (input : Option Json) (key : String) : Option String :=
  (input.bind fun value => value.textAt jsonbText [key]).map fun text => takeChars text 240

/-- `input #> '{file_edits,0,path}'`: a `0` is an index of an array and a key of an object. -/
def firstEditPath (input : Json) : Option Json :=
  match input.get "file_edits" with
  | some (.arr (first :: _)) => first.get "path"
  | some (.obj fields) => (fields.lookup "0").bind fun first => first.get "path"
  | _ => none

/-- `left(input #>> '{file_edits,0,path}', 240)`. -/
def compactEditPath (jsonbText : Json → String) (input : Option Json) : Option String :=
  ((input.bind firstEditPath).bind fun path => path.textAt jsonbText []).map fun text =>
    takeChars text 240

/-- `COMPACT_INPUT`: the texts that are there, each under its key. -/
def compactInput (jsonbText : Json → String) (input : Option Json) : Json :=
  .obj ((compactKeys.filterMap fun key =>
      (compactText jsonbText input key).map fun text => (key, .str text)) ++
    ((compactEditPath jsonbText input).map fun text =>
      ("file_edits", .arr [.obj [("path", .str text)]])).toList)

/-- An operation's row as the stream selects it. -/
def compactRow (jsonbText : Json → String) (op : OpRow) : OpRow :=
  { op with
    input := some (compactInput jsonbText op.input)
    resultContent := none
    resultPayload := none }

/-- An operation on the wire. -/
structure OperationValue where
  pair : TimelineToolPair
  fileTouches : List TimelineFileTouch
  bodyVersion : Int

/-! ## Queries -/

/-- The operations of a turn in order. -/
def turnOperations (db : Projection) (turn : Int) : List OpRow :=
  ((Table.rows db.ops).filter fun op => op.turnId = turn).insertionSort
    fun a b => a.operationOrd ≤ b.operationOrd

/-- `timeline_items` of a turn in order. -/
def turnItems (db : Projection) (turn : Int) : List (Int × TimelineChunk) :=
  ((db.items.toList.filter fun row => row.1.1 = turn).map fun row => (row.1.2, row.2)).insertionSort
    fun a b => a.1 ≤ b.1

/-- Whether a child transcript hangs on the call. -/
def linked (links : Finset ChildLink) (session : Uuid) (op : OpRow) : Bool :=
  decide (∃ link ∈ links, link.sessionUuid = session ∧ link.pairId = op.pairId)

def ord (op : OpRow) : Int := op.operationOrd

/-- The rows of `load_operations`: those of the calls that a page of items refers to, or the
next page of those changed or linked. -/
def operationRows (db : Projection) (links : Finset ChildLink) (session : Uuid) (turn : Int)
    (cursor : Cursor) (references : Option (List String)) : List OpRow :=
  match references with
  -- One event can reference more calls than the ordinary page size.
  | some ids =>
      ((turnOperations db turn).filter fun op => ids.contains op.pairId).take ids.length
  | none =>
      Paging.page ord batchSize cursor.operationAfter ((turnOperations db turn).filter fun op =>
        decide (cursor.since < op.changedAt) || linked links session op)

/-- `versions[&pair.id]`: the last of the rows with the id wins. -/
def version (rows : List OpRow) (pairId : String) : Int :=
  ((rows.reverse.find? fun op => op.pairId = pairId).map OpRow.changedAt).getD 0

/-- The values of `load_operations` for its rows, with their file touches. -/
def operationValues (jsonbText : Json → String) (db : Projection) (rows : List OpRow) :
    List OperationValue :=
  rows.map fun op =>
    { pair := (compactRow jsonbText op).pair
      fileTouches := db.touches[op.key]?.getD []
      bodyVersion := version rows op.pairId }

/-- A page of items, up to the checkpoint. -/
def itemRows (db : Projection) (turn : Int) (cursor : Cursor) : List (Int × TimelineChunk) :=
  match cursor.through with
  | none => []
  | some through =>
      Paging.page Prod.fst batchSize cursor.itemAfter
        ((turnItems db turn).filter fun row => row.1 ≤ through)

/-- `classify_bookkeeping`. -/
def classifyBookkeeping : TimelineChunk → TimelineChunk
  | .system subtype text isMeta =>
      .system subtype text (isMeta || isBookkeepingSystemSubtype subtype)
  | .generic label details isMeta =>
      .generic label details
        (isBookkeepingRecord label details.speaker details.subtype isMeta details.blocks)
  | chunk => chunk

/-- `chunk_pair_ids`. -/
def chunkPairIds : TimelineChunk → List String
  | .assistant items _ =>
      items.filterMap fun item =>
        match item with
        | .tool pairId => some pairId
        | .text _ => none
  | _ => []

/-- The cursor after a page of items. -/
def Cursor.afterItems (cursor : Cursor) (rows : List (Int × TimelineChunk)) : Cursor :=
  { cursor with
    itemsDone := decide (rows.length < batchSize)
    itemAfter := Paging.lastKey Prod.fst cursor.itemAfter rows }

/-- The cursor after a page of operations. -/
def Cursor.afterOperations (cursor : Cursor) (rows : List OpRow) : Cursor :=
  { cursor with operationAfter := Paging.lastKey ord cursor.operationAfter rows }

/-- The cursor of a complete sync up to its checkpoint. -/
def Cursor.completed (cursor : Cursor) (through : Int) : Cursor :=
  { cursor with
    since := through
    through := none
    itemAfter := through
    operationAfter := -1
    itemsDone := false }

/-- `begin`: the cursor of the header and whether the client starts over; `none` where the
request fails. Whether the turn is there is another query. -/
def beginCursor (db : Projection) (turn : Int) (previous : Option Cursor) :
    Option (Cursor × Bool) :=
  let through := db.state.projectedThrough
  let reset := previous.all fun cursor => cursor.turnId ≠ turn || decide (through < cursor.since)
  let cursor := (previous.filter fun _ => !reset).getD
    { turnId := turn, since := -1, through := none, itemAfter := -1, operationAfter := -1,
      itemsDone := false }
  if -1 ≤ cursor.since ∧ -1 ≤ cursor.itemAfter ∧ -1 ≤ cursor.operationAfter ∧
      ∀ offset ∈ cursor.through, cursor.since ≤ offset ∧ offset ≤ through then
    some ({ cursor with through := some (cursor.through.getD through) }, reset)
  else none

/-! ## What the pages hold -/

section Rows

open Table

variable {db : Projection} {turn : Int} {op : OpRow} {cursor : Cursor}

theorem mem_turnOperations : op ∈ turnOperations db turn ↔ op ∈ rows db.ops ∧ op.turnId = turn := by
  rw [turnOperations, List.mem_insertionSort, List.mem_filter]
  simp

theorem mem_turnItems {offset : Int} {chunk : TimelineChunk} :
    (offset, chunk) ∈ turnItems db turn ↔ db.items[(turn, offset)]? = some chunk := by
  rw [turnItems, List.mem_insertionSort, ← Std.ExtTreeMap.mem_toList_iff_getElem?_eq_some]
  simp

/-- Operations are in the order of their numbers. -/
theorem sorted_turnOperations (h : Keyed OpRow.key db.ops) (turn : Int) :
    (turnOperations db turn).Pairwise fun a b => ord a < ord b := by
  have hsort : turnOperations db turn =
      ((rows db.ops).filter fun op => op.turnId = turn).insertionSort fun a b => ord a ≤ ord b := by
    unfold turnOperations ord
    simp only [Nat.cast_le]
  rw [hsort]
  apply Paging.pairwise_sorted
  refine List.Nodup.map_on ?_ (h.nodup_rows.filter _)
  intro a ha b hb hab
  obtain ⟨hrow, hturn⟩ := List.mem_filter.mp ha
  obtain ⟨hrow', hturn'⟩ := List.mem_filter.mp hb
  have hkey : a.key = b.key :=
    Prod.ext ((of_decide_eq_true hturn).trans (of_decide_eq_true hturn').symm)
      (Int.ofNat.inj hab)
  have hlookup := h.mem_rows.mp hrow
  rw [hkey, h.mem_rows.mp hrow'] at hlookup
  exact (Option.some.inj hlookup).symm

theorem sorted_turnItems (db : Projection) (turn : Int) :
    (turnItems db turn).Pairwise fun a b => a.1 < b.1 := by
  apply Paging.pairwise_sorted
  rw [List.map_map]
  refine List.Nodup.map_on ?_ ((nodup_toList db.items).filter _)
  intro a ha b hb hab
  obtain ⟨hrow, hturn⟩ := List.mem_filter.mp ha
  obtain ⟨hrow', hturn'⟩ := List.mem_filter.mp hb
  have hkey : a.1 = b.1 :=
    Prod.ext ((of_decide_eq_true hturn).trans (of_decide_eq_true hturn').symm) hab
  have hlookup := Std.ExtTreeMap.mem_toList_iff_getElem?_eq_some.mp hrow
  rw [hkey, Std.ExtTreeMap.mem_toList_iff_getElem?_eq_some.mp hrow'] at hlookup
  exact Prod.ext hkey (Option.some.inj hlookup).symm

end Rows

end Sulion.Timeline.Stream
