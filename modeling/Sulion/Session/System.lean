import Sulion.Ingest.ProcessFile

set_option autoImplicit false

/-! # One session under ingest, projection and archive

Three tasks work on a session at the same time: the ingester's pass over the transcript, the
projection of stored events into the timeline, and the archive loop that exports, purges and
restores. A fourth caller asks for a rebuild of the timeline. The file is their joint
transition function `sessionStep`: every database transaction and every read that a later
decision depends on is one step, and the steps of different tasks interleave freely.

The ingester works on one file at a time and the archive loop on one session at a time, so
each has one control point; projection batches wait for the row lock of
`timeline_session_state`, which `batch` stands for. Idle windows, grace periods and live
terminals only delay the archive loop, so they are left to the choice of steps.
-/

namespace Sulion.Session

open Rust Lines Ingest

/-! ## State -/

/-- The columns of `timeline_session_state` that decide where projection continues. -/
structure Cursor where
  projectedThrough : Int
  projectionVersion : Int
  deriving DecidableEq, Repr

/-- `REDUCER_VERSION`. -/
def reducerVersion : Int := 2

/-- A row with its column defaults. -/
def Cursor.inserted : Cursor := ⟨-1, 0⟩

/-- The archive columns of the session row. -/
structure ArchiveColumns where
  archiveKey : String
  archiveSha256 : String
  archiveEvents : Nat
  deriving DecidableEq, Repr

/-- The lines of an archive object: offset and payload. -/
abbrev ArchiveLines := List (Nat × Json)

/-- Where the pass over the file stands. -/
inductive PassStage
  | inserting
  /-- Before `rebuild_if_inserted_behind` reads the cursor. -/
  | checking
  /-- The read is done; `request_rebuild` is called if `behind`. -/
  | decided (behind : Bool)
  deriving DecidableEq, Repr

/-- A pass over the file, its remaining lines, and the variables of its loop. -/
structure RunningPass where
  pass : Pass
  todo : List TranscriptLine
  walk : Walk
  stage : PassStage
  /-- History: some line was inserted at or below the cursor of that moment. -/
  insertedBehind : Bool

/-- A projection batch between its `FOR UPDATE` and its commit. -/
structure Batch where
  /-- The version differed, so the projection is cleared first. -/
  cleared : Bool
  projectedThrough : Int
  /-- Turn rows the batch upserts. -/
  turns : Finset Nat

/-- Where the archive loop stands with the session. -/
inductive Archiver
  | idle
  /-- In the export set of the cycle. -/
  | selected
  /-- The events are streamed to the temp file. -/
  | streamed (key : String) (lines : ArchiveLines)
  /-- The object is uploaded and its head verified. -/
  | uploaded (key : String) (lines : ArchiveLines)
  /-- A restore has read and verified the object. -/
  | fetched (lines : ArchiveLines)
  /-- The digest is withdrawn; these lines are still to be replayed. -/
  | replaying (lines : ArchiveLines)

/-- One session: its transcript, its rows, its objects, and the tasks working on it. -/
structure State where
  tail : Tail
  cursor : Option Cursor
  /-- The `turn_id`s in `timeline_turns`. -/
  turns : Finset Nat
  purged : Bool
  archive : Option ArchiveColumns
  objects : Table String ArchiveLines
  running : Option RunningPass
  /-- Calls of `project_batch` that have passed their purged check. -/
  checkedBatches : Nat
  batch : Option Batch
  /-- Calls of `rebuild_session_projection` that have passed their purged check. -/
  checkedRebuilds : Nat
  archiver : Archiver
  /-- History: `request_rebuild` was executed since the last purge. -/
  rebuildLanded : Bool

/-- A transcript nothing of which is ingested. -/
def State.new (file : List UInt8) : State where
  tail := .new file
  cursor := none
  turns := ∅
  purged := false
  archive := none
  objects := ∅
  running := none
  checkedBatches := 0
  batch := none
  checkedRebuilds := 0
  archiver := .idle
  rebuildLanded := false

/-- The lines of the object recorded on the session row. -/
def State.recordedLines (s : State) : ArchiveLines :=
  match s.archive with
  | none => []
  | some columns => (s.objects[columns.archiveKey]?).getD []

def State.withEvents (s : State) (events : Table Nat Json) : State :=
  { s with tail := { s.tail with events := events } }

def State.eventCount (s : State) : Nat := s.tail.events.toList.length

/-! ## The pass over the file -/

/-- `process_file` up to its insert loop. A purged session is deferred, a file shorter than
the committed offset is started over. -/
def beginPass (s : State) (p : Pass) : Option State :=
  if s.running.isSome ∨ s.tail.file.length < p.fileLen ∨ p.purged ≠ s.purged then none
  else if p.purged then some s
  else if p.fileLen < s.tail.committedOffset then
    some { s with tail := (setOffset p s.tail 0 (.start s.tail)).1 }
  else
    some
      { s with
        running := some
          { pass := p
            todo := bufferLines p s.tail
            walk := .start s.tail
            stage := .inserting
            insertedBehind := false } }

/-- Whether `offset` is at or below the cursor. -/
def State.behindCursor (s : State) (offset : Nat) : Bool :=
  s.cursor.any fun c => decide ((offset : Int) ≤ c.projectedThrough)

/-- One line of the insert loop. -/
def insertLine (parse : List UInt8 → Option Json) (s : State) : Option State :=
  match s.running with
  | some ⟨p, line :: todo, w, .inserting, behind⟩ =>
      if admissionClosed p w.admitted then
        some { s with running := some ⟨p, [], w.close, .inserting, behind⟩ }
      else
        let (events, result) := insertEvent parse (p.insertFails line.start) s.tail.events line
        let behind := behind || (result == .ok true && s.behindCursor line.start)
        some { s.withEvents events with
          running := some ⟨p, todo, w.record line result, .inserting, behind⟩ }
  | _ => none

/-- The end of the insert loop: an oversized line is skipped or the offset is committed. A
pass whose `set_offset` fails ends here. -/
def commitOffset (s : State) : Option State :=
  match s.running with
  | some ⟨p, [], w, .inserting, behind⟩ =>
      match finishWalk p s.tail w with
      | (tail, none) => some { s with tail := tail, running := none }
      | (tail, some result) =>
          some { s with
            tail := tail
            running := some ⟨p, [], { w with result := result }, .checking, behind⟩ }
  | _ => none

/-- `rebuild_if_inserted_behind` reads the cursor. -/
def checkCursor (s : State) : Option State :=
  match s.running with
  | some ⟨p, todo, w, .checking, behind⟩ =>
      let decision := w.result.firstInsertedOffset.any s.behindCursor
      some { s with running := some ⟨p, todo, w, .decided decision, behind⟩ }
  | _ => none

/-- `request_rebuild`, which waits for the lock a batch holds. -/
def requestRebuild (s : State) : Option State :=
  if s.batch.isSome then none
  else
    some { s with
      cursor := s.cursor.map fun c => { c with projectionVersion := 0 }
      rebuildLanded := true }

/-- The pass ends, requesting a rebuild if it decided to. -/
def endPass (s : State) : Option State :=
  match s.running with
  | some ⟨_, _, _, .decided behind, _⟩ =>
      if behind then requestRebuild { s with running := none } else some { s with running := none }
  | _ => none

/-! ## Projection -/

/-- `session_is_purged` at the head of `project_batch`. -/
def checkBatch (s : State) : Option State :=
  if s.purged then none else some { s with checkedBatches := s.checkedBatches + 1 }

/-- The events a batch loads: the first `budget` after the cursor. -/
def eventsAfter (s : State) (through : Int) (budget : Nat) : List (Nat × Json) :=
  (s.tail.events.toList.filter fun e => decide (through < (e.1 : Int))).take budget

/-- A batch locks the session's state row and loads its events. `turns` are the turn rows
the reducer changes. -/
def loadBatch (s : State) (budget : Nat) (turns : Finset Nat) : Option State :=
  if s.checkedBatches = 0 ∨ s.batch.isSome then none
  else
    let row := s.cursor.getD .inserted
    let cleared := decide (row.projectionVersion ≠ reducerVersion)
    let through := if cleared then -1 else row.projectedThrough
    let events := eventsAfter s through budget
    some { s with
      checkedBatches := s.checkedBatches - 1
      batch := some
        { cleared := cleared
          projectedThrough := events.getLast?.elim through fun e => (e.1 : Int)
          turns := if events.isEmpty then ∅ else turns } }

/-- The batch commits. -/
def commitBatch (s : State) : Option State :=
  match s.batch with
  | none => none
  | some b =>
      some { s with
        batch := none
        cursor := some ⟨b.projectedThrough, reducerVersion⟩
        turns := (if b.cleared then ∅ else s.turns) ∪ b.turns }

/-- `session_is_purged` at the head of `rebuild_session_projection`. -/
def checkRebuild (s : State) : Option State :=
  if s.purged then none else some { s with checkedRebuilds := s.checkedRebuilds + 1 }

/-- `rebuild_session_projection` marks the session. -/
def markRebuild (s : State) : Option State :=
  if s.checkedRebuilds = 0 then none
  else requestRebuild { s with checkedRebuilds := s.checkedRebuilds - 1 }

/-- `session_projection_current`. -/
def projectionCurrent (s : State) : Bool :=
  s.tail.events.toList.isEmpty || s.cursor.any fun c =>
    c.projectionVersion == reducerVersion &&
      s.tail.events.toList.all fun e => decide ((e.1 : Int) ≤ c.projectedThrough)

/-! ## The archive loop -/

/-- `eligible_sessions` selects the session. -/
def selectExport (s : State) : Option State :=
  match s.archiver with
  | .idle =>
      if s.purged = false ∧ 0 < s.eventCount ∧
          (s.archive.map fun columns => columns.archiveEvents) ≠ some s.eventCount then
        some { s with archiver := .selected }
      else none
  | _ => none

/-- `write_session_lines`; `key` holds the month of the first event. -/
def streamEvents (s : State) (key : String) : Option State :=
  match s.archiver with
  | .selected =>
      if s.eventCount = 0 then some { s with archiver := .idle }
      else some { s with archiver := .streamed key s.tail.events.toList }
  | _ => none

/-- `put_file` and the `HEAD` check. -/
def putObject (s : State) : Option State :=
  match s.archiver with
  | .streamed key lines =>
      some { s with objects := s.objects.insert key lines, archiver := .uploaded key lines }
  | _ => none

/-- The archive columns are recorded. -/
def recordExport (sha256 : ArchiveLines → String) (s : State) : Option State :=
  match s.archiver with
  | .uploaded key lines =>
      some { s with archive := some ⟨key, sha256 lines, lines.length⟩, archiver := .idle }
  | _ => none

/-- `lock_and_check`. -/
def lockAndCheck (s : State) : Bool :=
  !s.purged && s.archive.any fun columns => columns.archiveEvents == s.eventCount

/-- `purge_session`: the events go, the turn rows stay as the digest. -/
def purgeSession (s : State) : Option State :=
  match s.archiver with
  | .idle =>
      if lockAndCheck s && projectionCurrent s then
        some { s.withEvents ∅ with purged := true, rebuildLanded := false }
      else none
  | _ => none

/-- `restore_session` up to the verified object. -/
def fetchObject (sha256 : ArchiveLines → String) (s : State) : Option State :=
  match s.archiver, s.archive with
  | .idle, some columns =>
      match s.objects[columns.archiveKey]? with
      | some lines =>
          if s.purged && sha256 lines == columns.archiveSha256 && !lines.isEmpty then
            some { s with archiver := .fetched lines }
          else none
      | none => none
  | _, _ => none

/-- `withdraw_and_clear`, which updates the locked state row too. -/
def withdrawAndClear (s : State) : Option State :=
  match s.archiver with
  | .fetched lines =>
      if s.batch.isSome then none
      else
        some { s.withEvents ∅ with
          turns := ∅
          cursor := s.cursor.map fun c => { c with projectionVersion := 0 }
          purged := false
          archiver := .replaying lines }
  | _ => none

/-- One line of `replay_session_lines`. -/
def replayLine (s : State) : Option State :=
  match s.archiver with
  | .replaying ((offset, payload) :: lines) =>
      some { s.withEvents (storeEvent s.tail.events offset payload).1 with
        archiver := .replaying lines }
  | _ => none

/-- The replay is complete; the rebuild that follows is projection's. -/
def endRestore (s : State) : Option State :=
  match s.archiver with
  | .replaying [] => some { s with archiver := .idle }
  | _ => none

/-- The archive loop stops where it is: a crash or an error. -/
def stopArchiver (s : State) : Option State := some { s with archiver := .idle }

/-! ## The joint system -/

/-- A step of one of the tasks, or of the agent that writes the transcript. -/
inductive Step
  | append (bytes : List UInt8)
  | replace (file : List UInt8)
  | beginPass (p : Pass)
  | insertLine
  | commitOffset
  | checkCursor
  | endPass
  | checkBatch
  | loadBatch (budget : Nat) (turns : Finset Nat)
  | commitBatch
  | checkRebuild
  | markRebuild
  | selectExport
  | streamEvents (key : String)
  | putObject
  | recordExport
  | purgeSession
  | fetchObject
  | withdrawAndClear
  | replayLine
  | endRestore
  | stopArchiver

/-- The joint transition function. `parse` is `serde_json::from_slice` and `sha256` the hash
of an object's lines. -/
def sessionStep (parse : List UInt8 → Option Json) (sha256 : ArchiveLines → String) (s : State) :
    Step → Option State
  | .append bytes => some { s with tail := { s.tail with file := s.tail.file ++ bytes } }
  | .replace file => some { s with tail := { s.tail with file := file } }
  | .beginPass p => Session.beginPass s p
  | .insertLine => Session.insertLine parse s
  | .commitOffset => Session.commitOffset s
  | .checkCursor => Session.checkCursor s
  | .endPass => Session.endPass s
  | .checkBatch => Session.checkBatch s
  | .loadBatch budget turns => Session.loadBatch s budget turns
  | .commitBatch => Session.commitBatch s
  | .checkRebuild => Session.checkRebuild s
  | .markRebuild => Session.markRebuild s
  | .selectExport => Session.selectExport s
  | .streamEvents key => Session.streamEvents s key
  | .putObject => Session.putObject s
  | .recordExport => Session.recordExport sha256 s
  | .purgeSession => Session.purgeSession s
  | .fetchObject => Session.fetchObject sha256 s
  | .withdrawAndClear => Session.withdrawAndClear s
  | .replayLine => Session.replayLine s
  | .endRestore => Session.endRestore s
  | .stopArchiver => Session.stopArchiver s

/-! ## What each task leaves alone -/

/-- The task a step belongs to. -/
inductive Task
  | transcript
  | ingest
  | projection
  | archive
  deriving DecidableEq

def Step.task : Step → Task
  | .append _ | .replace _ => .transcript
  | .beginPass _ | .insertLine | .commitOffset | .checkCursor | .endPass => .ingest
  | .checkBatch | .loadBatch _ _ | .commitBatch | .checkRebuild | .markRebuild => .projection
  | .selectExport | .streamEvents _ | .putObject | .recordExport | .purgeSession | .fetchObject
  | .withdrawAndClear | .replayLine | .endRestore | .stopArchiver => .archive

section Frames

variable {parse : List UInt8 → Option Json} {sha256 : ArchiveLines → String} {s s' : State}
  {a : Step}

theorem requestRebuild_eq (h : requestRebuild s = some s') :
    s.batch = none ∧ s' = { s with
      cursor := s.cursor.map fun c => { c with projectionVersion := 0 }
      rebuildLanded := true } := by
  unfold requestRebuild at h
  split at h
  · cases h
  · rename_i hb
    cases h
    exact ⟨by simpa using hb, rfl⟩

/-- What the archive loop works on is left alone by the other tasks. -/
structure SameArchive (s s' : State) : Prop where
  archive : s'.archive = s.archive
  objects : s'.objects = s.objects
  archiver : s'.archiver = s.archiver
  purged : s'.purged = s.purged

theorem SameArchive.recordedLines (h : SameArchive s s') : s'.recordedLines = s.recordedLines := by
  simp only [State.recordedLines, h.archive, h.objects]

theorem sameArchive_of_task (h : sessionStep parse sha256 s a = some s') (ha : a.task ≠ .archive) :
    SameArchive s s' := by
  cases a with
  | append bytes => cases h; exact ⟨rfl, rfl, rfl, rfl⟩
  | replace file => cases h; exact ⟨rfl, rfl, rfl, rfl⟩
  | beginPass p =>
      simp only [sessionStep, beginPass] at h
      split at h
      · cases h
      · split at h
        · cases h; exact ⟨rfl, rfl, rfl, rfl⟩
        · split at h <;> cases h <;> exact ⟨rfl, rfl, rfl, rfl⟩
  | insertLine =>
      simp only [sessionStep, insertLine] at h
      split at h
      · split at h <;> cases h <;> exact ⟨rfl, rfl, rfl, rfl⟩
      · cases h
  | commitOffset =>
      simp only [sessionStep, commitOffset] at h
      split at h
      · split at h <;> cases h <;> exact ⟨rfl, rfl, rfl, rfl⟩
      · cases h
  | checkCursor =>
      simp only [sessionStep, checkCursor] at h
      split at h
      · cases h; exact ⟨rfl, rfl, rfl, rfl⟩
      · cases h
  | endPass =>
      simp only [sessionStep, endPass] at h
      split at h
      · split at h
        · obtain ⟨_, rfl⟩ := requestRebuild_eq h
          exact ⟨rfl, rfl, rfl, rfl⟩
        · cases h; exact ⟨rfl, rfl, rfl, rfl⟩
      · cases h
  | checkBatch =>
      simp only [sessionStep, checkBatch] at h
      split at h <;> cases h
      exact ⟨rfl, rfl, rfl, rfl⟩
  | loadBatch budget turns =>
      simp only [sessionStep, loadBatch] at h
      split at h <;> cases h
      exact ⟨rfl, rfl, rfl, rfl⟩
  | commitBatch =>
      simp only [sessionStep, commitBatch] at h
      split at h <;> cases h
      exact ⟨rfl, rfl, rfl, rfl⟩
  | checkRebuild =>
      simp only [sessionStep, checkRebuild] at h
      split at h <;> cases h
      exact ⟨rfl, rfl, rfl, rfl⟩
  | markRebuild =>
      simp only [sessionStep, markRebuild] at h
      split at h
      · cases h
      · obtain ⟨_, rfl⟩ := requestRebuild_eq h
        exact ⟨rfl, rfl, rfl, rfl⟩
  | _ => exact absurd rfl ha

/-- The file, the committed offset and the pass over it are left alone. -/
structure SamePass (s s' : State) : Prop where
  file : s'.tail.file = s.tail.file
  lastCommitted : s'.tail.lastCommitted = s.tail.lastCommitted
  running : s'.running = s.running

theorem samePass_of_task (h : sessionStep parse sha256 s a = some s')
    (ha : a.task = .projection ∨ a.task = .archive) : SamePass s s' := by
  cases a with
  | checkBatch =>
      simp only [sessionStep, checkBatch] at h
      split at h <;> cases h
      exact ⟨rfl, rfl, rfl⟩
  | loadBatch budget turns =>
      simp only [sessionStep, loadBatch] at h
      split at h <;> cases h
      exact ⟨rfl, rfl, rfl⟩
  | commitBatch =>
      simp only [sessionStep, commitBatch] at h
      split at h <;> cases h
      exact ⟨rfl, rfl, rfl⟩
  | checkRebuild =>
      simp only [sessionStep, checkRebuild] at h
      split at h <;> cases h
      exact ⟨rfl, rfl, rfl⟩
  | markRebuild =>
      simp only [sessionStep, markRebuild] at h
      split at h
      · cases h
      · obtain ⟨_, rfl⟩ := requestRebuild_eq h
        exact ⟨rfl, rfl, rfl⟩
  | selectExport =>
      simp only [sessionStep, selectExport] at h
      split at h
      · split at h <;> cases h
        exact ⟨rfl, rfl, rfl⟩
      · cases h
  | streamEvents key =>
      simp only [sessionStep, streamEvents] at h
      split at h
      · split at h <;> cases h <;> exact ⟨rfl, rfl, rfl⟩
      · cases h
  | putObject =>
      simp only [sessionStep, putObject] at h
      split at h <;> cases h
      exact ⟨rfl, rfl, rfl⟩
  | recordExport =>
      simp only [sessionStep, recordExport] at h
      split at h <;> cases h
      exact ⟨rfl, rfl, rfl⟩
  | purgeSession =>
      simp only [sessionStep, purgeSession] at h
      split at h
      · split at h <;> cases h
        exact ⟨rfl, rfl, rfl⟩
      · cases h
  | fetchObject =>
      simp only [sessionStep, fetchObject] at h
      split at h
      · split at h
        · split at h <;> cases h
          exact ⟨rfl, rfl, rfl⟩
        · cases h
      · cases h
  | withdrawAndClear =>
      simp only [sessionStep, withdrawAndClear] at h
      split at h
      · split at h <;> cases h
        exact ⟨rfl, rfl, rfl⟩
      · cases h
  | replayLine =>
      simp only [sessionStep, replayLine] at h
      split at h <;> cases h
      exact ⟨rfl, rfl, rfl⟩
  | endRestore =>
      simp only [sessionStep, endRestore] at h
      split at h <;> cases h
      exact ⟨rfl, rfl, rfl⟩
  | stopArchiver => cases h; exact ⟨rfl, rfl, rfl⟩
  | _ => rcases ha with ha | ha <;> cases ha

/-- Besides the archive loop only `insert_event` changes the events. -/
theorem events_of_not_insert (h : sessionStep parse sha256 s a = some s') (ha : a.task ≠ .archive)
    (hne : a ≠ .insertLine) : s'.tail.events = s.tail.events := by
  cases a with
  | append bytes => cases h; rfl
  | replace file => cases h; rfl
  | beginPass p =>
      simp only [sessionStep, beginPass] at h
      split at h
      · cases h
      · split at h
        · cases h; rfl
        · split at h <;> cases h
          · exact setOffset_events
          · rfl
  | commitOffset =>
      simp only [sessionStep, commitOffset] at h
      split at h
      · rename_i p w behind _
        split at h <;> rename_i hfinish <;> cases h
        · exact (congrArg (fun x => x.1.events) hfinish).symm.trans finishWalk_events
        · exact (congrArg (fun x => x.1.events) hfinish).symm.trans finishWalk_events
      · cases h
  | checkCursor =>
      simp only [sessionStep, checkCursor] at h
      split at h <;> cases h
      rfl
  | endPass =>
      simp only [sessionStep, endPass] at h
      split at h
      · split at h
        · obtain ⟨_, rfl⟩ := requestRebuild_eq h
          rfl
        · cases h; rfl
      · cases h
  | checkBatch =>
      simp only [sessionStep, checkBatch] at h
      split at h <;> cases h
      rfl
  | loadBatch budget turns =>
      simp only [sessionStep, loadBatch] at h
      split at h <;> cases h
      rfl
  | commitBatch =>
      simp only [sessionStep, commitBatch] at h
      split at h <;> cases h
      rfl
  | checkRebuild =>
      simp only [sessionStep, checkRebuild] at h
      split at h <;> cases h
      rfl
  | markRebuild =>
      simp only [sessionStep, markRebuild] at h
      split at h
      · cases h
      · obtain ⟨_, rfl⟩ := requestRebuild_eq h
        rfl
  | insertLine => exact absurd rfl hne
  | _ => exact absurd rfl ha

/-- Only the archive loop removes events. -/
theorem hasRow_of_task (h : sessionStep parse sha256 s a = some s') (ha : a.task ≠ .archive)
    {k : Nat} (hk : HasRow s.tail.events k) : HasRow s'.tail.events k := by
  by_cases hins : a = .insertLine
  · subst hins
    simp only [sessionStep, insertLine] at h
    split at h
    · split at h <;> cases h
      · exact hk
      · exact insertEvent_keeps hk
    · cases h
  · rw [events_of_not_insert h ha hins]
    exact hk

/-- The steps that write the timeline's state row or turns, or lock that row. -/
def Step.writesTimeline : Step → Bool
  | .endPass | .loadBatch _ _ | .commitBatch | .markRebuild | .purgeSession
  | .withdrawAndClear => true
  | _ => false

/-- The timeline is left alone. -/
structure SameTimeline (s s' : State) : Prop where
  cursor : s'.cursor = s.cursor
  turns : s'.turns = s.turns
  batch : s'.batch = s.batch
  rebuildLanded : s'.rebuildLanded = s.rebuildLanded
  purged : s'.purged = s.purged

theorem sameTimeline_of_not_writes (h : sessionStep parse sha256 s a = some s')
    (ha : a.writesTimeline = false) : SameTimeline s s' := by
  by_cases hask : a.task = .archive
  · cases a with
    | selectExport =>
        simp only [sessionStep, selectExport] at h
        split at h
        · split at h <;> cases h
          exact ⟨rfl, rfl, rfl, rfl, rfl⟩
        · cases h
    | streamEvents key =>
        simp only [sessionStep, streamEvents] at h
        split at h
        · split at h <;> cases h <;> exact ⟨rfl, rfl, rfl, rfl, rfl⟩
        · cases h
    | putObject =>
        simp only [sessionStep, putObject] at h
        split at h <;> cases h
        exact ⟨rfl, rfl, rfl, rfl, rfl⟩
    | recordExport =>
        simp only [sessionStep, recordExport] at h
        split at h <;> cases h
        exact ⟨rfl, rfl, rfl, rfl, rfl⟩
    | fetchObject =>
        simp only [sessionStep, fetchObject] at h
        split at h
        · split at h
          · split at h <;> cases h
            exact ⟨rfl, rfl, rfl, rfl, rfl⟩
          · cases h
        · cases h
    | replayLine =>
        simp only [sessionStep, replayLine] at h
        split at h <;> cases h
        exact ⟨rfl, rfl, rfl, rfl, rfl⟩
    | endRestore =>
        simp only [sessionStep, endRestore] at h
        split at h <;> cases h
        exact ⟨rfl, rfl, rfl, rfl, rfl⟩
    | stopArchiver => cases h; exact ⟨rfl, rfl, rfl, rfl, rfl⟩
    | purgeSession => cases ha
    | withdrawAndClear => cases ha
    | _ => cases hask
  · cases a with
    | append bytes => cases h; exact ⟨rfl, rfl, rfl, rfl, rfl⟩
    | replace file => cases h; exact ⟨rfl, rfl, rfl, rfl, rfl⟩
    | beginPass p =>
        simp only [sessionStep, beginPass] at h
        split at h
        · cases h
        · split at h
          · cases h; exact ⟨rfl, rfl, rfl, rfl, rfl⟩
          · split at h <;> cases h <;> exact ⟨rfl, rfl, rfl, rfl, rfl⟩
    | insertLine =>
        simp only [sessionStep, insertLine] at h
        split at h
        · split at h <;> cases h <;> exact ⟨rfl, rfl, rfl, rfl, rfl⟩
        · cases h
    | commitOffset =>
        simp only [sessionStep, commitOffset] at h
        split at h
        · split at h <;> cases h <;> exact ⟨rfl, rfl, rfl, rfl, rfl⟩
        · cases h
    | checkCursor =>
        simp only [sessionStep, checkCursor] at h
        split at h <;> cases h
        exact ⟨rfl, rfl, rfl, rfl, rfl⟩
    | checkBatch =>
        simp only [sessionStep, checkBatch] at h
        split at h <;> cases h
        exact ⟨rfl, rfl, rfl, rfl, rfl⟩
    | checkRebuild =>
        simp only [sessionStep, checkRebuild] at h
        split at h <;> cases h
        exact ⟨rfl, rfl, rfl, rfl, rfl⟩
    | _ => first | exact absurd rfl hask | cases ha

end Frames

end Sulion.Session
