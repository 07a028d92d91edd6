import Sulion.Frontend.TurnDetails
import Sulion.Lib.Transition

set_option autoImplicit false

/-! # One turn in the cache, over any number of syncs

`begin` and `next` of the turn stream as far as the cache depends on them: the cursor of each record
and the page of items that it has. Which operations a batch has, and in which version, is left open,
and so is what a late body has. One reader of the turn is at work at a time.
-/

namespace Sulion.Frontend.TurnDetails

open Transition

def batchSize : Nat := 64

/-! ## The server -/

/-- The projection of the turn, as far as streams read it. -/
structure Server (ι : Type) where
  generation : Nat
  projectedThrough : Int
  items : List (TimelineItem ι)
  sorted : items.Pairwise fun a b => a.offset < b.offset
  /-- Offsets are positions in a transcript. -/
  nonneg : ∀ item ∈ items, 0 ≤ item.offset

/-- Where a stream is. -/
inductive Stage (ι : Type)
  | idle
  /-- The checkpoint is fixed, the header not read yet. -/
  | opening (cursor : TurnCursor) (startOver : Bool)
  /-- Before the next record. -/
  | ready (cursor : TurnCursor)
  /-- A page of items is read, and the operations it refers to are next. -/
  | paged (cursor : TurnCursor) (items : List (TimelineItem ι))
  /-- The items are done, and a page of operations is next. -/
  | scanning (cursor : TurnCursor)

/-- What a query of operations answers for one. -/
structure OperationRow (μ β : Type) where
  operation : Nat
  changedAt : Int
  compact : β
  shown : μ

structure Received (ι μ β : Type) where
  /-- Of the generation that is cached, since it was begun. -/
  items : List (TimelineItem ι) := []
  operations : List (TimelineToolPair μ β) := []
  /-- Of all generations. -/
  bodies : List (OperationBody β) := []

structure State (ι μ β ν : Type) where
  server : Server ι
  stage : Stage ι := .idle
  /-- Records sent and not received yet. -/
  inFlight : List (TurnRecord ι μ β ν) := []
  entry : Option (StreamEntry ι μ β ν) := none
  /-- The stream is complete, and the loop is about to store this entry of its own. -/
  ending : Option (StreamEntry ι μ β ν) := none
  received : Received ι μ β := {}

inductive Action (ι μ β ν : Type)
  /-- A commit, or with another generation a rebuild or a purge. -/
  | change (server : Server ι)
  | begin
  | header (about : ν)
  | read
  | answer (rows : List (OperationRow μ β)) (operationAfter : Int)
  | receive
  /-- The last `put` of a sync. -/
  | finish (revision : Int) (loading : Bool)
  /-- The stream fails or is aborted. -/
  | fail (error : Option String)
  | hydrate (body : OperationBody β)
  /-- The entry of a turn without a reader is dropped. -/
  | evict

variable {ι μ β ν : Type}

/-- A page of items, up to the checkpoint. -/
def Server.page (server : Server ι) (cursor : TurnCursor) : List (TimelineItem ι) :=
  match cursor.through with
  | none => []
  | some through =>
      Paging.page TimelineItem.offset batchSize cursor.itemAfter
        (server.items.filter fun item => item.offset ≤ through)

def TurnCursor.afterItems (cursor : TurnCursor) (items : List (TimelineItem ι)) : TurnCursor :=
  { cursor with
    itemsDone := decide (items.length < batchSize)
    itemAfter := Paging.lastKey TimelineItem.offset cursor.itemAfter items }

/-- `begin`, up to its checks: the cursor of the header and whether the client starts over. -/
def Server.beginCursor (server : Server ι) (turn : Int) (previous : Option TurnCursor) :
    Option (TurnCursor × Bool) :=
  let through := server.projectedThrough
  let reset := previous.all fun cursor => cursor.turnId ≠ turn ||
    cursor.generation ≠ server.generation || decide (through < cursor.since)
  let cursor := (previous.filter fun _ => !reset).getD
    { turnId := turn, generation := server.generation, since := -1, through := none
      itemAfter := -1, operationAfter := -1, itemsDone := false }
  if -1 ≤ cursor.since ∧ -1 ≤ cursor.itemAfter ∧ -1 ≤ cursor.operationAfter ∧
      ∀ offset ∈ cursor.through, cursor.since ≤ offset ∧ offset ≤ through then
    some ({ cursor with through := some (cursor.through.getD through) }, reset)
  else none

/-! ## Steps -/

section Step

variable (pairId : Nat → Nat → String)

/-- An operation on the wire: it has the id of its call, and nothing that tells two calls with one
id apart. -/
def operationValue (generation : Nat) (row : OperationRow μ β) : TimelineToolPair μ β :=
  { operation := row.operation
    id := pairId generation row.operation
    bodyVersion := some row.changedAt
    bodyLoaded := false
    body := row.compact
    shown := row.shown }

def State.send (s : State ι μ β ν) (record : TurnRecord ι μ β ν) (stage : Stage ι) :
    State ι μ β ν :=
  { s with stage := stage, inFlight := s.inFlight ++ [record] }

/-- What was received of the cached generation. -/
def Received.add (received : Received ι μ β) : TurnRecord ι μ β ν → Received ι μ β
  | .header _ _ startOver =>
      if startOver then { received with items := [], operations := [] } else received
  | .batch items operations _ =>
      { received with
        items := received.items ++ items
        operations := received.operations ++ operations }
  | .reset => { received with items := [], operations := [] }
  | _ => received

def TurnRecord.isComplete : TurnRecord ι μ β ν → Bool
  | .complete _ => true
  | _ => false

def StreamEntry.failed (error : Option String) (entry : StreamEntry ι μ β ν) :
    StreamEntry ι μ β ν :=
  { entry with loading := false, error := error }

/-- `begin` of the client and of the server. -/
def begin (turn : Int) (s : State ι μ β ν) : Option (State ι μ β ν) :=
  match s.stage, s.inFlight, s.ending with
  | .idle, [], none =>
      let current := { s.entry.getD .fresh with loading := true, error := none }
      let opened := { s with entry := some current }
      match s.server.beginCursor turn current.cursor with
      | some (cursor, startOver) => some { opened with stage := .opening cursor startOver }
      | none => some opened
  | _, _, _ => none

/-- The queries of `next`, up to the operations. -/
def read (turn : Int) (s : State ι μ β ν) : Option (State ι μ β ν) :=
  match s.stage with
  | .ready cursor =>
      if cursor.turnId ≠ turn ∨ s.server.generation ≠ cursor.generation then
        some (s.send .reset .idle)
      else if cursor.itemsDone then some { s with stage := .scanning cursor }
      else
        let items := s.server.page cursor
        some { s with stage := .paged (cursor.afterItems items) items }
  | _ => none

/-- The record that `next` makes of its operations, unless the generation is another one by now. -/
def answer (rows : List (OperationRow μ β)) (operationAfter : Int) (s : State ι μ β ν) :
    Option (State ι μ β ν) :=
  match s.stage with
  | .paged cursor items =>
      if s.server.generation ≠ cursor.generation then some (s.send .reset .idle)
      else
        let operations := rows.map (operationValue pairId cursor.generation)
        some (s.send (.batch items operations cursor) (.ready cursor))
  | .scanning cursor =>
      if s.server.generation ≠ cursor.generation then some (s.send .reset .idle)
      else
        match rows, cursor.through with
        | [], some through =>
            let cursor := { cursor with
              since := through, through := none, itemAfter := through, operationAfter := -1
              itemsDone := false }
            some (s.send (.complete cursor) .idle)
        -- missing stream checkpoint
        | [], none => some { s with stage := .idle }
        | row :: rows, _ =>
            let operations := (row :: rows).map (operationValue pairId cursor.generation)
            let cursor := { cursor with operationAfter := operationAfter }
            some (s.send (.batch [] operations cursor) (.ready cursor))
  | _ => none

def step [DecidableEq μ] (turn : Int) (s : State ι μ β ν) : Action ι μ β ν → Option (State ι μ β ν)
  | .change server =>
      if s.server.generation ≤ server.generation then some { s with server := server } else none
  | .begin => begin turn s
  | .header about =>
      match s.stage with
      | .opening cursor startOver =>
          if s.server.generation = cursor.generation then
            some (s.send (.header about cursor startOver) (.ready cursor))
          -- projection changed during read
          else some { s with stage := .idle }
      | _ => none
  | .read => read turn s
  | .answer rows operationAfter => answer pairId rows operationAfter s
  | .receive =>
      match s.inFlight with
      | [] => none
      | record :: rest =>
          match applyStreamRecord (s.entry.getD .fresh) record with
          | .ok next =>
              some { s with
                inFlight := rest
                entry := some next
                ending := if record.isComplete then some next else s.ending
                received := s.received.add record }
          | .error message =>
              some { s with
                stage := .idle
                inFlight := []
                entry := some { s.entry.getD .fresh with loading := false, error := some message } }
  | .finish revision loading =>
      s.ending.map fun current =>
        { s with
          entry := some { current with revision := revision, loading := loading }
          ending := none }
  | .fail error =>
      match s.ending with
      | none =>
          some { s with
            stage := .idle
            inFlight := []
            entry := s.entry.map (StreamEntry.failed error) }
      | some _ => none
  | .hydrate body =>
      some { s with
        entry := s.entry.map (hydrateOperation body)
        received := { s.received with bodies := body :: s.received.bodies } }
  | .evict =>
      match s.stage, s.inFlight, s.ending with
      | .idle, [], none =>
          some { s with
            entry := none
            received := { s.received with items := [], operations := [] } }
      | _, _, _ => none

end Step

/-! ## What a sync sends, one record after the other -/

/-- The cursor of a header that goes on where the client is. -/
structure Resumes (p cursor : TurnCursor) : Prop where
  generation : cursor.generation = p.generation
  itemAfter : cursor.itemAfter = p.itemAfter
  since : cursor.since = p.since
  through : ∃ t, cursor.through = some t ∧ (p.through = some t ∨ p.through = none ∧ p.since ≤ t)

/-- A page of items behind the cursor. -/
structure PageAfter (p cursor : TurnCursor) (items : List (TimelineItem ι)) : Prop where
  generation : cursor.generation = p.generation
  through : cursor.through = p.through
  checkpoint : cursor.through.isSome = true
  itemAfter : p.itemAfter ≤ cursor.itemAfter
  sorted : items.Pairwise fun a b => a.offset < b.offset
  items : ∀ item ∈ items, 0 ≤ item.offset ∧ p.itemAfter < item.offset ∧
    item.offset ≤ cursor.itemAfter ∧ ∀ through ∈ cursor.through, item.offset ≤ through

/-- The values are operations of the generation, as they cross the wire. -/
def Named (pairId : Nat → Nat → String) (generation : Nat)
    (operations : List (TimelineToolPair μ β)) : Prop :=
  ∀ v ∈ operations, v.id = pairId generation v.operation ∧ v.bodyLoaded = false ∧
    v.bodyVersion.isSome = true

def Follows (pairId : Nat → Nat → String) (prev : Option TurnCursor) :
    TurnRecord ι μ β ν → Prop
  | .header _ cursor startOver => startOver = true ∨ ∃ p, prev = some p ∧ Resumes p cursor
  | .batch items operations cursor =>
      (∃ p, prev = some p ∧ PageAfter p cursor items) ∧ Named pairId cursor.generation operations
  | .complete cursor => ∃ p t, prev = some p ∧ p.through = some t ∧
      cursor.generation = p.generation ∧ cursor.through = none ∧ cursor.itemAfter = t ∧
        cursor.since = t
  | .reset => True
  | .error _ => False

/-- The client's cursor after a record. -/
def cursorAfter (prev : Option TurnCursor) : TurnRecord ι μ β ν → Option TurnCursor
  | .header _ cursor _ | .batch _ _ cursor | .complete cursor => some cursor
  | .reset => none
  | .error _ => prev

def Chain (pairId : Nat → Nat → String) :
    Option TurnCursor → List (TurnRecord ι μ β ν) → Prop
  | _, [] => True
  | prev, record :: rest => Follows pairId prev record ∧ Chain pairId (cursorAfter prev record) rest

/-- The stream goes on where the last record leaves the client. -/
def Stage.Fits (last : Option TurnCursor) : Stage ι → Prop
  | .idle => True
  | .opening cursor startOver =>
      cursor.through.isSome = true ∧ (startOver = true ∨ ∃ p, last = some p ∧ Resumes p cursor)
  | .ready cursor | .scanning cursor => last = some cursor ∧ cursor.through.isSome = true
  | .paged cursor items => ∃ p, last = some p ∧ PageAfter p cursor items

/-- The items lie where the cursor says. -/
structure Behind (items : List (TimelineItem ι)) (cursor : TurnCursor) : Prop where
  itemAfter : ∀ item ∈ items, item.offset ≤ cursor.itemAfter
  through : ∀ through ∈ cursor.through, ∀ item ∈ items, item.offset ≤ through
  since : cursor.through = none → ∀ item ∈ items, item.offset ≤ cursor.since

/-- The turn has what was received. -/
structure Holds (pairId : Nat → Nat → String) (received : Received ι μ β)
    (turn : TimelineTurn ι μ β ν) : Prop where
  items : turn.items = received.items
  sorted : turn.items.Pairwise fun a b => a.offset < b.offset
  named : Named pairId turn.generation received.operations
  kept : Kept turn.generation received.operations received.bodies turn.toolPairs

structure EntryFits (pairId : Nat → Nat → String) (received : Received ι μ β)
    (entry : StreamEntry ι μ β ν) : Prop where
  cursor : ∀ cursor ∈ entry.cursor, ∃ turn ∈ entry.turn,
    turn.generation = cursor.generation ∧ Behind turn.items cursor
  turn : ∀ turn ∈ entry.turn, entry.cursor.isSome = true ∧ Holds pairId received turn

/-- What a record is applied to. -/
def State.current (s : State ι μ β ν) : StreamEntry ι μ β ν := s.entry.getD .fresh

structure Inv (pairId : Nat → Nat → String) (s : State ι μ β ν) : Prop where
  entry : EntryFits pairId s.received s.current
  chain : Chain pairId s.current.cursor s.inFlight
  stage : s.stage.Fits (s.inFlight.foldl cursorAfter s.current.cursor)
  last : ∀ record ∈ s.inFlight.dropLast, record.isComplete = false
  closed : ∀ record ∈ s.inFlight, record.isComplete = true → s.stage = .idle
  ending : ∀ e ∈ s.ending, s.inFlight = [] ∧ s.stage = .idle ∧
    e.turn = s.current.turn ∧ e.cursor = s.current.cursor

/-- No body arrives between the last record of a sync and its last `put`. -/
def Timely (s : State ι μ β ν) : Action ι μ β ν → Prop
  | .hydrate _ => s.ending = none
  | _ => True

instance (s : State ι μ β ν) (a : Action ι μ β ν) : Decidable (Timely s a) :=
  match a with
  | .hydrate _ => inferInstanceAs (Decidable (s.ending = none))
  | .change _ | .begin | .header _ | .read | .answer _ _ | .receive | .finish _ _ | .fail _
  | .evict => .isTrue trivial

/-- No version goes back from one entry to the next. -/
def StreamEntry.Advances (entry entry' : StreamEntry ι μ β ν) : Prop :=
  ∀ turn ∈ entry.turn, ∀ turn' ∈ entry'.turn, Newer turn.toolPairs turn'.toolPairs

section Proofs

variable {pairId : Nat → Nat → String} {s s' : State ι μ β ν} {prev : Option TurnCursor}
  {record : TurnRecord ι μ β ν} {entry entry' : StreamEntry ι μ β ν}
  {received : Received ι μ β}
  {turn : TimelineTurn ι μ β ν} {cursor p : TurnCursor} {items : List (TimelineItem ι)}

theorem chain_send (queue : List (TurnRecord ι μ β ν)) (h : Chain pairId prev queue)
    (hrecord : Follows pairId (queue.foldl cursorAfter prev) record) :
    Chain pairId prev (queue ++ [record]) := by
  induction queue generalizing prev with
  | nil => exact ⟨hrecord, trivial⟩
  | cons first queue ih => exact ⟨h.1, ih h.2 hrecord⟩

/-! ## What the server sends -/

theorem Server.page_after (server : Server ι) (hthrough : p.through.isSome = true) :
    PageAfter p (p.afterItems (server.page p)) (server.page p) := by
  obtain ⟨through, hsome⟩ := Option.isSome_iff_exists.mp hthrough
  have hpage : server.page p = Paging.page TimelineItem.offset batchSize p.itemAfter
      (server.items.filter fun item => item.offset ≤ through) := by
    unfold Server.page
    rw [hsome]
  have hsorted : (server.page p).Pairwise fun a b => a.offset < b.offset := by
    rw [hpage]
    exact Paging.pairwise_page (server.sorted.filter _)
  refine ⟨rfl, rfl, hthrough, ?_, hsorted, fun item hitem => ?_⟩
  · show p.itemAfter ≤ Paging.lastKey TimelineItem.offset p.itemAfter (server.page p)
    rw [hpage]
    exact Paging.after_le_lastKey
  · have hlast : item.offset ≤ (p.afterItems (server.page p)).itemAfter :=
      Paging.le_lastKey hsorted hitem p.itemAfter
    rw [hpage] at hitem
    obtain ⟨hheld, hreach⟩ := List.mem_filter.mp (Paging.mem_of_mem_page hitem)
    refine ⟨server.nonneg item hheld, Paging.lt_of_mem_page hitem, hlast, fun t ht => ?_⟩
    have hcheckpoint : p.through = some t := ht
    obtain rfl := Option.some.inj (hsome.symm.trans hcheckpoint)
    exact of_decide_eq_true hreach

theorem Server.beginCursor_fits {server : Server ι} {turn : Int} {previous : Option TurnCursor}
    {startOver : Bool} (h : server.beginCursor turn previous = some (cursor, startOver)) :
    cursor.through.isSome = true ∧
      (startOver = true ∨ ∃ p, previous = some p ∧ Resumes p cursor) := by
  unfold Server.beginCursor at h
  dsimp only at h
  split at h
  · simp only [Option.some.injEq, Prod.mk.injEq] at h
    obtain ⟨rfl, rfl⟩ := h
    refine ⟨rfl, ?_⟩
    cases previous with
    | none => exact .inl rfl
    | some p =>
        simp only [Option.all_some]
        by_cases hreset : (p.turnId ≠ turn || p.generation ≠ server.generation ||
            decide (server.projectedThrough < p.since)) = true
        · exact .inl hreset
        · have hkept := Bool.eq_false_iff.mpr hreset
          simp only [ne_eq, decide_not, Bool.or_eq_false_iff, Bool.not_eq_false',
            decide_eq_true_eq, decide_eq_false_iff_not, not_lt] at hkept
          refine .inr ⟨p, rfl, ?_⟩
          rw [Bool.eq_false_iff.mpr hreset]
          show Resumes p { p with through := some (p.through.getD server.projectedThrough) }
          refine ⟨rfl, rfl, rfl, _, rfl, ?_⟩
          cases hthrough : p.through with
          | none => exact .inr ⟨rfl, by simpa [hthrough] using hkept.2⟩
          | some t => exact .inl (by simp)
  · cases h

theorem named_operationValue (pairId : Nat → Nat → String) (generation : Nat)
    (rows : List (OperationRow μ β)) :
    Named pairId generation (rows.map (operationValue pairId generation)) := by
  intro v hv
  obtain ⟨row, -, rfl⟩ := List.mem_map.mp hv
  exact ⟨rfl, rfl, rfl⟩

/-! ## One record -/

/-- A page lies behind everything that is held. -/
theorem Behind.page (h : Behind turn.items p) (hpage : PageAfter p cursor items) :
    Behind (turn.items ++ items) cursor where
  itemAfter item hitem := by
    rcases List.mem_append.mp hitem with hold | hnew
    · exact (h.itemAfter item hold).trans hpage.itemAfter
    · exact (hpage.items item hnew).2.2.1
  through through hthrough item hitem := by
    rcases List.mem_append.mp hitem with hold | hnew
    · exact h.through through (hpage.through ▸ hthrough) item hold
    · exact (hpage.items item hnew).2.2.2 through hthrough
  since hnone := by
    have hsome := hpage.checkpoint
    rw [hnone] at hsome
    cases hsome

/-- No item of a page is held, so that all of them are appended. -/
theorem page_appended (h : Behind turn.items p) (hpage : PageAfter p cursor items) :
    (items.filter fun item => (turn.items.getLast?.map (·.offset)).getD (-1) < item.offset) =
      items := by
  refine List.filter_eq_self.mpr fun item hitem => decide_eq_true ?_
  cases hlast : turn.items.getLast? with
  | none =>
      have hnonneg := (hpage.items item hitem).1
      show -1 < item.offset
      omega
  | some last =>
      have hheld := h.itemAfter last (List.mem_of_getLast? hlast)
      exact hheld.trans_lt (hpage.items item hitem).2.1

theorem EntryFits.congr (h : EntryFits pairId received entry) (hturn : entry'.turn = entry.turn)
    (hcursor : entry'.cursor = entry.cursor) : EntryFits pairId received entry' := by
  constructor
  · rw [hturn, hcursor]
    exact h.cursor
  · rw [hturn, hcursor]
    exact h.turn

theorem entryFits_fresh (received : Received ι μ β) :
    EntryFits (ν := ν) pairId received .fresh :=
  ⟨nofun, nofun⟩

theorem EntryFits.same_advances (h : EntryFits pairId received entry)
    (hturn : entry'.turn = entry.turn) : entry.Advances entry' := by
  intro turn hhere turn' hthere
  rw [hturn, hhere] at hthere
  obtain rfl := Option.some.inj hthere
  exact .refl (h.turn turn hhere).2.kept.once

/-- A header that goes on leaves every item behind its cursor. -/
theorem Behind.resume (h : Behind turn.items p) (hresumes : Resumes p cursor) :
    Behind turn.items cursor := by
  obtain ⟨t, hthrough, hreach⟩ := hresumes.through
  refine ⟨?_, fun through hmem item hitem => ?_, fun hnone => ?_⟩
  · rw [hresumes.itemAfter]
    exact h.itemAfter
  · obtain rfl := Option.some.inj (hthrough.symm.trans hmem)
    rcases hreach with hsame | ⟨hnone, hsince⟩
    · exact h.through t hsame item hitem
    · exact (h.since hnone item hitem).trans hsince
  · rw [hthrough] at hnone
    cases hnone

theorem receive_header (h : EntryFits pairId received entry) (about : ν) (startOver : Bool)
    (hfollows : startOver = true ∨ ∃ p, entry.cursor = some p ∧ Resumes p cursor)
    [DecidableEq μ] : ∃ next,
    applyStreamRecord entry (.header about cursor startOver) = .ok next ∧
      next.cursor = some cursor ∧
      EntryFits pairId (received.add (.header (ν := ν) about cursor startOver)) next ∧
      entry.Advances next := by
  cases startOver with
  | true =>
      refine ⟨_, rfl, rfl, ⟨fun c hc => ?_, fun turn' hturn' => ?_⟩, ?_⟩
      · obtain rfl := Option.some.inj hc
        exact ⟨_, rfl, rfl, List.forall_mem_nil _, fun _ _ => List.forall_mem_nil _,
          fun _ => List.forall_mem_nil _⟩
      · obtain rfl := Option.some.inj hturn'
        exact ⟨rfl, rfl, .nil, List.forall_mem_nil _, .empty _ _⟩
      · intro turn _ turn' hturn' pair _ pair' hpair'
        obtain rfl := Option.some.inj hturn'
        exact absurd hpair' List.not_mem_nil
  | false =>
      obtain ⟨p, hp, hresumes⟩ := hfollows.resolve_left Bool.false_ne_true
      obtain ⟨turn, hturn, hgeneration, hbehind⟩ := h.cursor p hp
      obtain ⟨-, hholds⟩ := h.turn turn hturn
      have hentry : entry.turn = some turn := hturn
      have hsame : turn.generation = cursor.generation :=
        hgeneration.trans hresumes.generation.symm
      have happly : applyStreamRecord entry (.header about cursor false) = .ok { entry with
          cursor := some cursor
          turn := some { turn with about := about, generation := cursor.generation } } := by
        unfold applyStreamRecord
        simp [hentry]
      refine ⟨_, happly, rfl, ⟨fun c hc => ?_, fun turn' hturn' => ?_⟩, ?_⟩
      · obtain rfl := Option.some.inj hc
        exact ⟨_, rfl, rfl, hbehind.resume hresumes⟩
      · obtain rfl := Option.some.inj hturn'
        refine ⟨rfl, hholds.items, hholds.sorted, ?_, ?_⟩
        · exact hsame ▸ hholds.named
        · exact hsame ▸ hholds.kept
      · intro old hold turn' hturn'
        obtain rfl := Option.some.inj (hentry.symm.trans hold)
        obtain rfl := Option.some.inj hturn'
        exact .refl hholds.kept.once

theorem receive_batch (h : EntryFits pairId received entry)
    {operations : List (TimelineToolPair μ β)} (hp : entry.cursor = some p)
    (hpage : PageAfter p cursor items) (hnamed : Named pairId cursor.generation operations)
    [DecidableEq μ] : ∃ next,
    applyStreamRecord entry (.batch items operations cursor) = .ok next ∧
      next.cursor = some cursor ∧
      EntryFits pairId (received.add (.batch (ν := ν) items operations cursor)) next ∧
      entry.Advances next := by
  obtain ⟨turn, hturn, hgeneration, hbehind⟩ := h.cursor p hp
  obtain ⟨-, hholds⟩ := h.turn turn hturn
  have hentry : entry.turn = some turn := hturn
  have hsame : turn.generation = cursor.generation := hgeneration.trans hpage.generation.symm
  have happly : applyStreamRecord entry (.batch items operations cursor) = .ok { entry with
      cursor := some cursor
      turn := some { turn with
        items := turn.items ++ items
        toolPairs := mergeOperations turn.toolPairs operations } } := by
    unfold applyStreamRecord
    simp only [hentry, page_appended hbehind hpage]
  obtain ⟨hkept, hnewer⟩ := hholds.kept.ofUpdates fun v hv => (hnamed v hv).2
  refine ⟨_, happly, rfl, ⟨fun c hc => ?_, fun turn' hturn' => ?_⟩, ?_⟩
  · obtain rfl := Option.some.inj hc
    exact ⟨_, rfl, hsame, hbehind.page hpage⟩
  · obtain rfl := Option.some.inj hturn'
    refine ⟨rfl, congrArg (· ++ items) hholds.items, ?_, ?_, hkept⟩
    · refine List.pairwise_append.mpr ⟨hholds.sorted, hpage.sorted, fun a ha b hb => ?_⟩
      exact (hbehind.itemAfter a ha).trans_lt (hpage.items b hb).2.1
    · intro v hv
      rcases List.mem_append.mp hv with hold | hnew
      · exact hholds.named v hold
      · exact hsame ▸ hnamed v hnew
  · intro old hold turn' hturn'
    obtain rfl := Option.some.inj (hentry.symm.trans hold)
    obtain rfl := Option.some.inj hturn'
    exact hnewer

/-- **One record.** The record that follows is applied, keeps what is known of the entry and takes
no version back. -/
theorem receive_record (h : EntryFits pairId received entry)
    (hfollows : Follows pairId entry.cursor record) [DecidableEq μ] : ∃ next,
    applyStreamRecord entry record = .ok next ∧ next.cursor = cursorAfter entry.cursor record ∧
      EntryFits pairId (received.add record) next ∧ entry.Advances next := by
  cases record with
  | header about cursor startOver => exact receive_header h about startOver hfollows
  | batch items operations cursor =>
      obtain ⟨⟨p, hp, hpage⟩, hnamed⟩ := hfollows
      exact receive_batch h hp hpage hnamed
  | complete cursor =>
      obtain ⟨p, t, hp, hthrough, hgeneration, hnone, hitemAfter, hsince⟩ := hfollows
      obtain ⟨turn, hturn, hsame, hbehind⟩ := h.cursor p hp
      have hreached := hbehind.through t hthrough
      refine ⟨_, rfl, rfl, ⟨fun c hc => ?_, fun turn' hturn' => ?_⟩, h.same_advances rfl⟩
      · obtain rfl := Option.some.inj hc
        refine ⟨turn, hturn, hsame.trans hgeneration.symm, ?_, ?_, fun _ => ?_⟩
        · rw [hitemAfter]
          exact hreached
        · rw [hnone]
          exact nofun
        · rw [hsince]
          exact hreached
      · exact ⟨rfl, (h.turn turn' hturn').2⟩
  | reset => exact ⟨_, rfl, rfl, entryFits_fresh _, nofun⟩
  | error message => exact hfollows.elim

/-! ## One step -/

/-- A record is sent. -/
theorem Inv.send (h : Inv pairId s) {stage : Stage ι} (hbusy : s.stage ≠ .idle)
    (hfollows : Follows pairId (s.inFlight.foldl cursorAfter s.current.cursor) record)
    (hstage : stage.Fits (cursorAfter (s.inFlight.foldl cursorAfter s.current.cursor) record))
    (hclosed : record.isComplete = true → stage = .idle) : Inv pairId (s.send record stage) where
  entry := h.entry
  chain := chain_send s.inFlight h.chain hfollows
  stage := by
    show stage.Fits ((s.inFlight ++ [record]).foldl cursorAfter s.current.cursor)
    rw [List.foldl_append]
    exact hstage
  last earlier hearlier := by
    have hmem : earlier ∈ s.inFlight := by
      have hdrop : (s.inFlight ++ [record]).dropLast = s.inFlight := List.dropLast_concat
      rw [← hdrop]
      exact hearlier
    exact Bool.eq_false_iff.mpr fun hcomplete => hbusy (h.closed earlier hmem hcomplete)
  closed other hother hcomplete := by
    rcases List.mem_append.mp hother with hold | hnew
    · exact absurd (h.closed other hold hcomplete) hbusy
    · obtain rfl := List.mem_singleton.mp hnew
      exact hclosed hcomplete
  ending e he := absurd (h.ending e he).2.1 hbusy

/-- The stream goes on without a record. -/
theorem Inv.move (h : Inv pairId s) {stage : Stage ι} (hbusy : s.stage ≠ .idle)
    (hstage : stage.Fits (s.inFlight.foldl cursorAfter s.current.cursor)) :
    Inv pairId { s with stage := stage } where
  entry := h.entry
  chain := h.chain
  stage := hstage
  last := h.last
  closed other hother hcomplete := absurd (h.closed other hother hcomplete) hbusy
  ending e he := absurd (h.ending e he).2.1 hbusy

theorem Inv.opened (h : Inv pairId s) {stage : Stage ι} (hqueue : s.inFlight = [])
    (hending : s.ending = none) (hturn : entry.turn = s.current.turn)
    (hcursor : entry.cursor = s.current.cursor) (hstage : stage.Fits s.current.cursor) :
    Inv pairId { s with entry := some entry, stage := stage } where
  entry := h.entry.congr hturn hcursor
  chain := by
    rw [hqueue]
    exact trivial
  stage := by
    show stage.Fits (s.inFlight.foldl cursorAfter entry.cursor)
    rw [hqueue, hcursor]
    exact hstage
  last := by
    rw [hqueue]
    exact List.forall_mem_nil _
  closed := by
    rw [hqueue]
    exact List.forall_mem_nil _
  ending e he := by
    have hsome : s.ending = some e := he
    rw [hending] at hsome
    cases hsome

theorem Inv.begin {turn : Int} (h : Inv pairId s) (hstep : begin turn s = some s') :
    Inv pairId s' ∧ s.current.Advances s'.current := by
  unfold TurnDetails.begin at hstep
  split at hstep
  · rename_i hidle hqueue hending
    dsimp only at hstep
    have hsame : s.current.Advances { s.current with loading := true, error := none } :=
      h.entry.same_advances rfl
    split at hstep
    · rename_i cursor startOver hbegin
      obtain rfl := Option.some.inj hstep
      exact ⟨h.opened hqueue hending rfl rfl (Server.beginCursor_fits hbegin), hsame⟩
    · obtain rfl := Option.some.inj hstep
      refine ⟨h.opened hqueue hending rfl rfl ?_, hsame⟩
      rw [hidle]
      exact trivial
  · cases hstep

theorem Inv.read {turn : Int} (h : Inv pairId s) (hstep : read turn s = some s') :
    Inv pairId s' ∧ s.current.Advances s'.current := by
  unfold TurnDetails.read at hstep
  split at hstep
  · rename_i cursor hready
    have hbusy : s.stage ≠ .idle := by
      rw [hready]
      exact nofun
    have hfits := h.stage
    rw [hready] at hfits
    split at hstep
    · obtain rfl := Option.some.inj hstep
      exact ⟨h.send hbusy trivial trivial fun _ => rfl, h.entry.same_advances rfl⟩
    · split at hstep
      · obtain rfl := Option.some.inj hstep
        exact ⟨h.move hbusy hfits, h.entry.same_advances rfl⟩
      · obtain rfl := Option.some.inj hstep
        have hpage : Stage.Fits (s.inFlight.foldl cursorAfter s.current.cursor)
            (.paged (cursor.afterItems (s.server.page cursor)) (s.server.page cursor)) :=
          ⟨cursor, hfits.1, s.server.page_after hfits.2⟩
        exact ⟨h.move hbusy hpage, h.entry.same_advances rfl⟩
  · cases hstep

theorem Inv.answer {rows : List (OperationRow μ β)} {operationAfter : Int} (h : Inv pairId s)
    (hstep : answer pairId rows operationAfter s = some s') :
    Inv pairId s' ∧ s.current.Advances s'.current := by
  unfold TurnDetails.answer at hstep
  split at hstep
  · rename_i cursor items hpaged
    have hbusy : s.stage ≠ .idle := by
      rw [hpaged]
      exact nofun
    have hfits := h.stage
    rw [hpaged] at hfits
    obtain ⟨p, hp, hpage⟩ := hfits
    split at hstep
    · obtain rfl := Option.some.inj hstep
      exact ⟨h.send hbusy trivial trivial fun _ => rfl, h.entry.same_advances rfl⟩
    · obtain rfl := Option.some.inj hstep
      have hnamed := named_operationValue pairId cursor.generation rows
      refine ⟨h.send hbusy ⟨⟨p, hp, hpage⟩, hnamed⟩ ⟨rfl, hpage.checkpoint⟩ nofun, ?_⟩
      exact h.entry.same_advances rfl
  · rename_i cursor hscanning
    have hbusy : s.stage ≠ .idle := by
      rw [hscanning]
      exact nofun
    have hfits := h.stage
    rw [hscanning] at hfits
    obtain ⟨hlast, hsome⟩ := hfits
    split at hstep
    · obtain rfl := Option.some.inj hstep
      exact ⟨h.send hbusy trivial trivial fun _ => rfl, h.entry.same_advances rfl⟩
    · split at hstep
      · rename_i through hthrough
        obtain rfl := Option.some.inj hstep
        refine ⟨h.send hbusy ?_ trivial fun _ => rfl, h.entry.same_advances rfl⟩
        exact ⟨cursor, through, hlast, hthrough, rfl, rfl, rfl, rfl⟩
      · rename_i hthrough
        rw [hthrough] at hsome
        cases hsome
      · rename_i row rows
        obtain rfl := Option.some.inj hstep
        have hnamed := named_operationValue pairId cursor.generation (row :: rows)
        -- a page of operations alone leaves the place among the items
        have hpage :
            PageAfter (ι := ι) cursor { cursor with operationAfter := operationAfter } [] :=
          ⟨rfl, rfl, hsome, le_rfl, .nil, List.forall_mem_nil _⟩
        refine ⟨h.send hbusy ⟨⟨cursor, hlast, hpage⟩, hnamed⟩ ⟨rfl, hsome⟩ nofun, ?_⟩
        exact h.entry.same_advances rfl
  · cases hstep

theorem Inv.header {about : ν} [DecidableEq μ] {turn : Int} (h : Inv pairId s)
    (hstep : step pairId turn s (.header about) = some s') :
    Inv pairId s' ∧ s.current.Advances s'.current := by
  unfold step at hstep
  dsimp only at hstep
  split at hstep
  · rename_i cursor startOver hopening
    have hbusy : s.stage ≠ .idle := by
      rw [hopening]
      exact nofun
    have hfits := h.stage
    rw [hopening] at hfits
    split at hstep
    · obtain rfl := Option.some.inj hstep
      exact ⟨h.send hbusy hfits.2 ⟨rfl, hfits.1⟩ nofun, h.entry.same_advances rfl⟩
    · obtain rfl := Option.some.inj hstep
      exact ⟨h.move hbusy trivial, h.entry.same_advances rfl⟩
  · cases hstep

theorem Inv.receive [DecidableEq μ] {turn : Int} (h : Inv pairId s)
    (hstep : step pairId turn s .receive = some s') :
    Inv pairId s' ∧ s.current.Advances s'.current := by
  unfold step at hstep
  dsimp only at hstep
  split at hstep
  · cases hstep
  · rename_i record rest hqueue
    have hchain := h.chain
    have hstage := h.stage
    have hlast := h.last
    have hclosed := h.closed
    rw [hqueue] at hchain hstage hlast hclosed
    obtain ⟨next, happly, hcursor, hentry, hadvances⟩ := receive_record h.entry hchain.1
    have hsplit : applyStreamRecord (s.entry.getD .fresh) record = .ok next := happly
    rw [hsplit] at hstep
    obtain rfl := Option.some.inj hstep
    refine ⟨⟨hentry, ?_, ?_, fun other hother => ?_, fun other hother => ?_, fun e he => ?_⟩,
      hadvances⟩
    · show Chain pairId next.cursor rest
      rw [hcursor]
      exact hchain.2
    · show s.stage.Fits (rest.foldl cursorAfter next.cursor)
      rw [hcursor]
      exact hstage
    · have hne : rest ≠ [] := by
        rintro rfl
        exact List.not_mem_nil hother
      rw [List.dropLast_cons_of_ne_nil hne] at hlast
      exact hlast other (List.mem_cons_of_mem _ hother)
    · exact hclosed other (List.mem_cons_of_mem _ hother)
    · cases hcomplete : record.isComplete with
      | true =>
          -- nothing follows the last record
          have hempty : rest = [] := by
            by_contra hne
            rw [List.dropLast_cons_of_ne_nil hne] at hlast
            have hopen := hlast record List.mem_cons_self
            rw [hcomplete] at hopen
            cases hopen
          have hown : some next = some e := by
            rw [← he, if_pos hcomplete]
          obtain rfl := Option.some.inj hown
          exact ⟨hempty, hclosed record List.mem_cons_self hcomplete, rfl, rfl⟩
      | false =>
          have hold : s.ending = some e := by
            rw [← he, if_neg (Bool.eq_false_iff.mp hcomplete)]
          have hnone := (h.ending e hold).1
          rw [hqueue] at hnone
          cases hnone

/-- A body is stored, and applied where it belongs. -/
theorem EntryFits.hydrate (h : EntryFits pairId received entry) (body : OperationBody β) :
    EntryFits pairId { received with bodies := body :: received.bodies }
        (hydrateOperation body entry) ∧
      entry.Advances (hydrateOperation body entry) ∧
      (hydrateOperation body entry).cursor = entry.cursor := by
  have hmore : EntryFits pairId { received with bodies := body :: received.bodies } entry := by
    refine ⟨h.cursor, fun turn hturn => ?_⟩
    obtain ⟨hcursor, hholds⟩ := h.turn turn hturn
    exact ⟨hcursor, hholds.items, hholds.sorted, hholds.named, hholds.kept.more body⟩
  unfold hydrateOperation
  split
  · exact ⟨hmore, h.same_advances rfl, rfl⟩
  · rename_i turn hentry
    split
    · exact ⟨hmore, h.same_advances rfl, rfl⟩
    · rename_i hgeneration
      obtain ⟨hcursor, hholds⟩ := h.turn turn hentry
      refine ⟨⟨fun cursor hc => ?_, fun turn' hturn' => ?_⟩, ?_, rfl⟩
      · obtain ⟨turn', hturn', hfits⟩ := h.cursor cursor hc
        obtain rfl := Option.some.inj (hentry.symm.trans hturn')
        exact ⟨_, rfl, hfits⟩
      · obtain rfl := Option.some.inj hturn'
        refine ⟨hcursor, hholds.items, hholds.sorted, hholds.named, ?_⟩
        exact hholds.kept.withBody (not_not.mp hgeneration).symm
      · intro old hold turn' hturn'
        obtain rfl := Option.some.inj (hentry.symm.trans hold)
        obtain rfl := Option.some.inj hturn'
        exact newer_withBody body hholds.kept.once

theorem hydrated_current (s : State ι μ β ν) (body : OperationBody β) :
    (s.entry.map (hydrateOperation body)).getD .fresh = hydrateOperation body s.current := by
  unfold State.current
  cases s.entry with
  | none => rfl
  | some entry => rfl

theorem failed_current (s : State ι μ β ν) (error : Option String) :
    ((s.entry.map (StreamEntry.failed error)).getD StreamEntry.fresh).turn = s.current.turn ∧
      ((s.entry.map (StreamEntry.failed error)).getD StreamEntry.fresh).cursor =
        s.current.cursor := by
  unfold State.current
  cases s.entry with
  | none => exact ⟨rfl, rfl⟩
  | some entry => exact ⟨rfl, rfl⟩

theorem Inv.hydrate [DecidableEq μ] {turn : Int} {body : OperationBody β} (h : Inv pairId s)
    (htimely : s.ending = none) (hstep : step pairId turn s (.hydrate body) = some s') :
    Inv pairId s' ∧ s.current.Advances s'.current := by
  obtain rfl := Option.some.inj hstep
  obtain ⟨hentry, hadvances, hcursor⟩ := h.entry.hydrate body
  rw [← hydrated_current s body] at hentry hadvances hcursor
  refine ⟨⟨hentry, ?_, ?_, h.last, h.closed, fun e he => ?_⟩, hadvances⟩
  · show Chain pairId ((s.entry.map (hydrateOperation body)).getD .fresh).cursor s.inFlight
    rw [hcursor]
    exact h.chain
  · show s.stage.Fits (s.inFlight.foldl cursorAfter
      ((s.entry.map (hydrateOperation body)).getD .fresh).cursor)
    rw [hcursor]
    exact h.stage
  · have hsome : s.ending = some e := he
    rw [htimely] at hsome
    cases hsome

/-- The stream is over, whatever was under way. -/
theorem Inv.closedWith (h : EntryFits pairId received entry) (hentry : s.current = entry)
    (hreceived : s.received = received) (hidle : s.stage = .idle) (hqueue : s.inFlight = [])
    (hending : s.ending = none) : Inv pairId s where
  entry := by
    rw [hreceived, hentry]
    exact h
  chain := by
    rw [hqueue]
    exact trivial
  stage := by
    rw [hidle]
    exact trivial
  last := by
    rw [hqueue]
    exact List.forall_mem_nil _
  closed := by
    rw [hqueue]
    exact List.forall_mem_nil _
  ending e he := by
    have hsome : s.ending = some e := he
    rw [hending] at hsome
    cases hsome

/-- **One step.** -/
theorem Inv.step [DecidableEq μ] {turn : Int} {a : Action ι μ β ν} (h : Inv pairId s)
    (htimely : Timely s a) (hstep : step pairId turn s a = some s') :
    Inv pairId s' ∧ s.current.Advances s'.current := by
  cases a with
  | change server =>
      unfold TurnDetails.step at hstep
      dsimp only at hstep
      split at hstep
      · obtain rfl := Option.some.inj hstep
        exact ⟨⟨h.entry, h.chain, h.stage, h.last, h.closed, h.ending⟩, h.entry.same_advances rfl⟩
      · cases hstep
  | begin => exact h.begin hstep
  | header about => exact h.header hstep
  | read => exact h.read hstep
  | answer rows operationAfter => exact h.answer hstep
  | receive => exact h.receive hstep
  | hydrate body => exact h.hydrate htimely hstep
  | finish revision loading =>
      unfold TurnDetails.step at hstep
      obtain ⟨e, he, rfl⟩ := Option.map_eq_some_iff.mp hstep
      obtain ⟨hqueue, hidle, hturn, hcursor⟩ := h.ending e he
      have hfits :
          EntryFits pairId s.received { e with revision := revision, loading := loading } :=
        h.entry.congr hturn hcursor
      exact ⟨.closedWith hfits rfl rfl hidle hqueue rfl, h.entry.same_advances hturn⟩
  | fail error =>
      unfold TurnDetails.step at hstep
      dsimp only at hstep
      split at hstep
      · rename_i hending
        obtain rfl := Option.some.inj hstep
        have hsame := failed_current s error
        have hfits := h.entry.congr hsame.1 hsame.2
        exact ⟨.closedWith hfits rfl rfl rfl rfl hending, h.entry.same_advances hsame.1⟩
      · cases hstep
  | evict =>
      unfold TurnDetails.step at hstep
      dsimp only at hstep
      split at hstep
      · rename_i hidle hqueue hending
        obtain rfl := Option.some.inj hstep
        exact ⟨.closedWith (entryFits_fresh _) rfl rfl hidle hqueue hending, nofun⟩
      · cases hstep

/-! ## Every run -/

theorem inv_start (server : Server ι) :
    Inv (ν := ν) pairId ({ server := server } : State ι μ β ν) :=
  .closedWith (entryFits_fresh _) rfl rfl rfl rfl rfl

theorem inv_of_run [DecidableEq μ] {turn : Int} {start : State ι μ β ν} (h : Inv pairId start)
    (hrun : Run (step pairId turn) Timely start s) : Inv pairId s :=
  hrun.invariant (fun _ _ _ hinv htimely hstep => (hinv.step htimely hstep).1) h

/-- The cached turn, and what was received of its generation. -/
structure Merged (received : Received ι μ β) (turn : TimelineTurn ι μ β ν) : Prop where
  sorted : turn.items.Pairwise fun a b => a.offset < b.offset
  union : ∀ item, item ∈ turn.items ↔ item ∈ received.items
  once : (turn.toolPairs.map (·.operation)).Nodup
  held : ∀ v ∈ received.operations, ∃ p ∈ turn.toolPairs,
    p.operation = v.operation ∧ v.version ≤ p.version
  newest : ∀ p ∈ turn.toolPairs,
    (∃ v ∈ received.operations, v.operation = p.operation) ∧
      ((∃ v ∈ received.operations, v.operation = p.operation ∧ p.version = v.version) ∨
        ∃ b ∈ received.bodies, b.id = p.id ∧ b.generation = turn.generation ∧
          p.version = b.bodyVersion)
  loaded : ∀ p ∈ turn.toolPairs, p.bodyLoaded = true → ∃ b ∈ received.bodies, b.id = p.id ∧
    b.generation = turn.generation ∧ p.version = b.bodyVersion ∧ p.body = b.body

/-- The ids of the pairs are those of their operations. -/
theorem Holds.id_eq (h : Holds pairId received turn) {pair : TimelineToolPair μ β}
    (hpair : pair ∈ turn.toolPairs) : pair.id = pairId turn.generation pair.operation := by
  obtain ⟨v, hv, hid, hoperation⟩ := h.kept.known pair hpair
  rw [← hid, ← hoperation]
  exact (h.named v hv).1

theorem Holds.merged (h : Holds pairId received turn)
    (hdistinct : ∀ generation, Function.Injective (pairId generation)) :
    Merged received turn := by
  have hoperation : ∀ v ∈ received.operations, ∀ p ∈ turn.toolPairs, p.id = v.id →
      p.operation = v.operation := by
    intro v hv p hp hid
    rw [h.id_eq hp, (h.named v hv).1] at hid
    exact hdistinct turn.generation hid
  have hknown : ∀ p ∈ turn.toolPairs, ∃ v ∈ received.operations, v.operation = p.operation := by
    intro p hp
    obtain ⟨v, hv, -, hsame⟩ := h.kept.known p hp
    exact ⟨v, hv, hsame⟩
  refine ⟨h.sorted, fun item => by rw [h.items], ?_, fun v hv => ?_, fun p hp => ⟨hknown p hp, ?_⟩,
    fun p hp hloaded => ?_⟩
  · have honce := h.kept.once
    refine List.Nodup.of_map (pairId turn.generation) ?_
    rw [List.map_map]
    have hids : turn.toolPairs.map (pairId turn.generation ∘ (·.operation)) =
        turn.toolPairs.map (·.id) := List.map_congr_left fun p hp => (h.id_eq hp).symm
    rw [hids]
    exact honce
  · obtain ⟨p, hp, hid, hversion⟩ := h.kept.held v hv
    exact ⟨p, hp, hoperation v hv p hp hid, hversion⟩
  · rcases h.kept.version p hp with ⟨v, hv, hid, hversion⟩ | ⟨b, hb, hid, hgeneration, hversion⟩
    · exact .inl ⟨v, hv, (hoperation v hv p hp hid.symm).symm, congrArg (·.getD (-1)) hversion⟩
    · exact .inr ⟨b, hb, hid, hgeneration, congrArg (·.getD (-1)) hversion⟩
  · obtain ⟨b, hb, hid, hgeneration, hversion, hbody⟩ := h.kept.loaded p hp hloaded
    exact ⟨b, hb, hid, hgeneration, congrArg (·.getD (-1)) hversion, hbody⟩

/-- A body changes the operation that has its id, unless the cached turn is of another generation or
has a newer version of the operation. -/
theorem hydrated_turn (body : OperationBody β) (hturn : entry.turn = some turn) :
    (hydrateOperation body entry).turn = some { turn with
      toolPairs := turn.toolPairs.map fun pair =>
        if turn.generation = body.generation ∧ pair.id = body.id ∧
          pair.version ≤ body.bodyVersion then
          { pair with
            body := body.body, bodyVersion := some body.bodyVersion, bodyLoaded := true }
        else pair } := by
  unfold hydrateOperation
  rw [hturn]
  dsimp only
  split
  · rename_i hother
    simp only [hother, false_and, if_false, List.map_id']
    exact hturn
  · rename_i hsame
    have hgeneration := not_not.mp hsame
    simp only [hgeneration, true_and]
    rfl

/-- **The cache merges the stream.** Whatever the server sends for the turn, with syncs cut off and
resumed, new versions and new generations, and with bodies that arrive at any time but the last
moment of a sync. -/
theorem turn_cache_merges [DecidableEq μ] (turn : Int) (server : Server ι)
    (hdistinct : ∀ generation, Function.Injective (pairId generation))
    (hrun : Run (step pairId turn) Timely ({ server := server } : State ι μ β ν) s) :
    (∀ cached ∈ s.current.turn, Merged s.received cached) ∧
      (∀ a s', Timely s a → step pairId turn s a = some s' → s.current.Advances s'.current) ∧
      ∀ cached ∈ s.current.turn, ∀ body s', step pairId turn s (.hydrate body) = some s' →
        s'.current.turn = some { cached with
          toolPairs := cached.toolPairs.map fun pair =>
            if cached.generation = body.generation ∧ pair.id = body.id ∧
              pair.version ≤ body.bodyVersion then
              { pair with
                body := body.body, bodyVersion := some body.bodyVersion, bodyLoaded := true }
            else pair } := by
  have hinv := inv_of_run (inv_start server) hrun
  refine ⟨fun cached hcached => ?_, fun a s' htimely hstep => (hinv.step htimely hstep).2,
    fun cached hcached body s' hstep => ?_⟩
  · exact (hinv.entry.turn cached hcached).2.merged hdistinct
  · obtain rfl := Option.some.inj hstep
    have hcurrent := hydrated_current s body
    rw [← hydrated_turn body hcached, ← hcurrent]
    rfl

end Proofs

/-! ## A sync with a late body -/

/-- The ids of the calls, one for each operation. -/
def sampleId (_ operation : Nat) : String := String.ofList (List.replicate operation 'x')

theorem sampleId_injective (generation : Nat) : Function.Injective (sampleId generation) := by
  intro a b h
  have hlength := congrArg String.length h
  simpa [sampleId] using hlength

def sampleServer : Server Unit where
  generation := 1
  projectedThrough := 10
  items := [⟨3, ()⟩, ⟨7, ()⟩]
  sorted := by decide
  nonneg := by decide

def sampleRow : OperationRow Unit Nat := ⟨0, 20, 5, ()⟩

/-- The first batch of a sync is received. -/
def firstBatch : List (Action Unit Unit Nat Unit) :=
  [.begin, .header (), .read, .answer [sampleRow] 0, .receive, .receive]

def sampleBody : OperationBody Nat := ⟨"", 1, 30, 8⟩

/-- The body arrives, and the sync ends. -/
def wholeSync : List (Action Unit Unit Nat Unit) :=
  firstBatch ++ [.hydrate sampleBody, .read, .answer [] 0, .receive, .finish 1 false]

theorem turn_cache_merges_sample : ∃ s : State Unit Unit Nat Unit,
    runList (restrict (step sampleId 5) Timely) { server := sampleServer } wholeSync = some s ∧
      (∃ cached ∈ s.current.turn, Merged s.received cached) ∧
      ∀ a s', Timely s a → step sampleId 5 s a = some s' → s.current.Advances s'.current := by
  have hrun :
      ∃ s, runList (restrict (step sampleId 5) Timely) { server := sampleServer } wholeSync =
      some s ∧ s.current.turn.isSome = true := ⟨_, rfl, rfl⟩
  obtain ⟨s, hs, hcached⟩ := hrun
  obtain ⟨cached, hturn⟩ := Option.isSome_iff_exists.mp hcached
  have hmerges := turn_cache_merges 5 sampleServer sampleId_injective (.of_restrict wholeSync hs)
  exact ⟨s, hs, ⟨cached, hturn, hmerges.1 cached hturn⟩, hmerges.2.1⟩

/-- A body of a newer version than the cached one is applied. -/
theorem newer_body_applied :
    ¬ ∀ (s s' : State Unit Unit Nat Unit) (body : OperationBody Nat),
      Run (step sampleId 5) Timely { server := sampleServer } s →
      step sampleId 5 s (.hydrate body) = some s' →
      ∀ cached ∈ s.current.turn, ∀ cached' ∈ s'.current.turn,
      ∀ p ∈ cached.toolPairs, ∀ p' ∈ cached'.toolPairs, p'.id = p.id →
        (cached.generation ≠ body.generation ∨ p.version ≠ body.bodyVersion) →
          p'.body = p.body := by
  intro h
  have hstates : ∃ s s' cached cached',
      runList (restrict (step sampleId 5) Timely) { server := sampleServer } firstBatch = some s ∧
      step sampleId 5 s (.hydrate sampleBody) = some s' ∧
      s.current.turn = some cached ∧ s'.current.turn = some cached' ∧
      cached.toolPairs = [operationValue sampleId 1 sampleRow] ∧
      cached'.toolPairs = [withBody sampleBody (operationValue sampleId 1 sampleRow)] :=
    ⟨_, _, _, _, rfl, rfl, rfl, rfl, rfl, rfl⟩
  obtain ⟨s, s', cached, cached', hs, hstep, hcached, hcached', hpairs, hpairs'⟩ := hstates
  have hkept := h s s' sampleBody (.of_restrict firstBatch hs) hstep cached hcached cached' hcached'
    (operationValue sampleId 1 sampleRow) (by rw [hpairs]; exact List.mem_cons_self)
    (withBody sampleBody (operationValue sampleId 1 sampleRow))
    (by rw [hpairs']; exact List.mem_cons_self) rfl (.inr (by decide))
  exact absurd hkept (by decide)

end Sulion.Frontend.TurnDetails
