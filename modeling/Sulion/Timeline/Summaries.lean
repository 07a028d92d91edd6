import Sulion.Lib.Closure
import Sulion.Lib.Transition
import Sulion.Pty.Records
import Sulion.Timeline.Batches

set_option autoImplicit false

/-! # Timeline summaries and their revisions

What a timeline pane loads, the turn summaries of a PTY's current session or of a repository's
sessions, and the `timeline_revision` that the app state reports beside it. The store holds the
timelines of all sessions, the links to the sessions they spawned, the sessions' PTYs and the PTYs'
current sessions. Its steps are the commits of projection batches, the three statements of a
correlation, a purge, and the first transaction of a restore.

The file path filter's `ILIKE` is a parameter.
-/

namespace Sulion.Timeline.Summaries

open Sulion.Rust Transition Pty

/-! ## The store -/

/-- A row of `claude_sessions`; `purged` is `purged_at IS NOT NULL`. -/
structure ClaudeSession where
  agent : String
  ptySessionId : Option Uuid
  startedAt : Timestamp
  purged : Bool

/-- A row of `pty_sessions`. -/
structure PtySession where
  repo : String
  state : PtyState
  currentSessionUuid : Option Uuid

/-- The timeline of one session. -/
structure SessionTimeline where
  projection : Projection := {}
  /-- `timeline_session_state.revision`; without a row it counts as 0. -/
  revision : Nat := 0
  /-- `projection_version` is `REDUCER_VERSION`. -/
  current : Bool := false
  /-- Its events have a Codex `session_meta` of a subagent. -/
  codexSubagent : Bool := false

structure Store where
  claudeSessions : Table Uuid ClaudeSession
  ptySessions : Table Uuid PtySession
  timelines : Uuid → SessionTimeline
  /-- `timeline_child_links`. -/
  childLinks : Finset ChildLink

/-- No session yet. -/
def Store.new (ptySessions : Table Uuid PtySession) : Store := ⟨∅, ptySessions, fun _ => {}, ∅⟩

/-! ## One session's summaries -/

/-- The fields of `ProjectionFilters` that summaries depend on. -/
structure ProjectionFilters where
  hiddenOperationCategories : List OperationCategory := []
  errorsOnly : Bool := false
  showSidechain : Bool := false
  filePath : String := ""

structure TimelineOperationBadge where
  name : String
  operationType : Option String
  count : Nat
  pendingCount : Nat
  deriving DecidableEq

/-- `TimelineTurnSummary`, but for the label and state of its PTY. -/
structure TimelineTurnSummary where
  id : Int
  turnKey : Option String
  preview : String
  startTimestamp : Timestamp
  endTimestamp : Timestamp
  durationMs : Int
  eventCount : Nat
  operationCount : Nat
  operationBadges : List TimelineOperationBadge
  thinkingCount : Nat
  hasErrors : Bool
  isSidechain : Bool
  inputTokens : Int
  outputTokens : Int
  ptySessionId : Option Uuid
  sessionUuid : Option Uuid
  sessionAgent : Option String
  deriving DecidableEq

structure TimelineSummaryResponse where
  sessionUuid : Option Uuid
  sessionAgent : Option String
  totalEventCount : Nat
  turns : List TimelineTurnSummary
  deriving DecidableEq

def emptyTimelineSummaryResponse (totalEventCount : Nat) : TimelineSummaryResponse :=
  ⟨none, none, totalEventCount, []⟩

section Load

variable (pathMatches : String → String → Bool) (filters : ProjectionFilters)

/-- `load_referenced_turn_ids`: the turns with a touched file that the filter's path matches. -/
def loadReferencedTurnIds (db : Projection) : Option (List Int) :=
  if (trim filters.filePath).isEmpty then none
  else
    some ((db.touches.toList.filter fun e =>
      e.2.any fun touch => pathMatches filters.filePath touch.path).map fun e => e.1.1)

/-- `load_projected_turn_summary_rows`. -/
def loadProjectedTurnSummaryRows (db : Projection) (referenced : Option (List Int)) :
    List TurnRow :=
  ((Table.rows db.turns).filter fun turn =>
    referenced.all (fun ids => decide (turn.turnId ∈ ids)) &&
      (!filters.errorsOnly || turn.hasErrors) &&
      (filters.showSidechain || !turn.isSidechain)).insertionSort
    fun a b => a.turnOrd ≤ b.turnOrd

/-- The badges of one turn, `ORDER BY count DESC, name ASC`. -/
def operationBadges (db : Projection) (turnId : Int) : List TimelineOperationBadge :=
  let shown := (Table.rows db.ops).filter fun op =>
    decide (op.turnId = turnId) &&
      op.category.all fun category => decide (category ∉ filters.hiddenOperationCategories)
  let group (op : OpRow) : String × Option String :=
    (op.operationType.getD op.name, op.operationType)
  let badges := (shown.map group).dedup.map fun key =>
    let ops := shown.filter fun op => group op = key
    { name := key.1
      operationType := key.2
      count := ops.length
      pendingCount := (ops.filter OpRow.isPending).length }
  badges.insertionSort fun a b => b.count < a.count ∨ (b.count = a.count ∧ a.name ≤ b.name)

/-- `build_projected_turn_summary`. -/
def buildProjectedTurnSummary (badges : List TimelineOperationBadge) (row : TurnRow) :
    TimelineTurnSummary :=
  { id := row.turnId
    turnKey := none
    preview := row.preview
    startTimestamp := row.startTimestamp
    endTimestamp := row.endTimestamp
    durationMs := row.durationMs
    eventCount := row.eventCount
    operationCount := row.operationCount
    operationBadges := badges
    thinkingCount := row.thinkingCount
    hasErrors := row.hasErrors
    isSidechain := row.isSidechain
    inputTokens := row.inputTokens
    outputTokens := row.outputTokens
    ptySessionId := none
    sessionUuid := none
    sessionAgent := none }

/-- `load_own_timeline_summary`. -/
def loadOwnTimelineSummary (db : Projection) : TimelineSummaryResponse :=
  let total := ((Table.rows db.turns).map TurnRow.eventCount).sum
  let referenced := loadReferencedTurnIds pathMatches filters db
  if referenced = some [] then emptyTimelineSummaryResponse total
  else
    { sessionUuid := none
      sessionAgent := none
      totalEventCount := total
      turns := (loadProjectedTurnSummaryRows filters db referenced).map fun row =>
        buildProjectedTurnSummary (operationBadges filters db row.turnId) row }

/-! ## The sessions shown with it -/

/-- The sessions that the links say a session spawned itself. -/
def spawnedBy (links : Finset ChildLink) (root : Uuid) : Finset Uuid :=
  (links.filter fun l => l.sessionUuid = root ∧ l.childTurnId < 0 ∧ l.childSessionUuid ≠ root).image
    ChildLink.childSessionUuid

/-- The links that `down` follows below a root. -/
def downLinks (links : Finset ChildLink) (root : Uuid) : Finset (Uuid × Uuid) :=
  (links.filter fun l => l.childTurnId < 0 ∧ l.childSessionUuid ≠ root).image fun l =>
    (l.sessionUuid, l.childSessionUuid)

/-- `down`: every session spawned by the root, directly or through its children. -/
def down (links : Finset ChildLink) (root : Uuid) : Finset Uuid :=
  reachableFrom (downLinks links root) (spawnedBy links root)

/-- `ORDER BY session_uuid`. -/
def sortedUuids (uuids : Finset Uuid) : List Uuid :=
  ((uuids.image BitVec.toNat).sort (· ≤ ·)).map (BitVec.ofNat 128)

/-- `load_child_turn_summaries`. -/
def loadChildTurnSummaries (s : Store) (root : Uuid) : List TimelineTurnSummary :=
  (sortedUuids (down s.childLinks root)).flatMap fun child =>
    (loadOwnTimelineSummary pathMatches filters
      (s.timelines child).projection).turns.map fun turn =>
      { turn with
        turnKey := some (uuidText child ++ ":" ++ toString turn.id)
        sessionUuid := some child
        isSidechain := true }

/-- Start, session and id, the order of a summary with sidechains. -/
def sidechainOrder (a b : TimelineTurnSummary) : Prop :=
  (compare (a.startTimestamp, a.sessionUuid, a.id) (b.startTimestamp, b.sessionUuid, b.id)).isLE

instance : DecidableRel sidechainOrder := fun _ _ => inferInstanceAs (Decidable (_ = true))

/-- `load_timeline_summary_response`. -/
def loadTimelineSummaryResponse (s : Store) (session : Uuid) : TimelineSummaryResponse :=
  let response := loadOwnTimelineSummary pathMatches filters (s.timelines session).projection
  if filters.showSidechain then
    { response with
      turns :=
        (response.turns ++ loadChildTurnSummaries pathMatches filters s session).insertionSort
        sidechainOrder }
  else response

/-- `annotate_timeline_summaries`. -/
def annotateTimelineSummaries (session : Uuid) (cs : ClaudeSession)
    (turns : List TimelineTurnSummary) : List TimelineTurnSummary :=
  turns.map fun turn =>
    if turn.sessionUuid.all (· == session) then
      { turn with
        turnKey := some (uuidText session ++ ":" ++ toString turn.id)
        ptySessionId := cs.ptySessionId
        sessionUuid := some session
        sessionAgent := some cs.agent }
    else turn

/-! ## What a pane loads -/

/-- `session_timeline` of a PTY; `none` when it fails. -/
def sessionTimeline (pty : Uuid) (s : Store) : Option TimelineSummaryResponse :=
  match s.ptySessions[pty]? with
  | none => none
  | some row =>
      match row.currentSessionUuid with
      | none => some (emptyTimelineSummaryResponse 0)
      | some session =>
          s.claudeSessions[session]?.map fun cs =>
            let response := loadTimelineSummaryResponse pathMatches filters s session
            { response with
              turns := annotateTimelineSummaries session cs response.turns
              sessionUuid := some session
              sessionAgent := some cs.agent }

/-- The session's PTY is one of the repository. -/
def inRepo (s : Store) (repo : String) (cs : ClaudeSession) : Bool :=
  cs.ptySessionId.any fun pty => s.ptySessions[pty]?.any fun row => row.repo = repo

/-- The sessions of a repository's timeline, `ORDER BY cs.started_at ASC, cs.session_uuid ASC`. -/
def repoSessions (s : Store) (repo : String) : List (Uuid × ClaudeSession) :=
  (s.claudeSessions.toList.filter fun e =>
    inRepo s repo e.2 && !(s.timelines e.1).codexSubagent).insertionSort
    fun a b => (compare (a.2.startedAt, a.1) (b.2.startedAt, b.1)).isLE

/-- Start, end, session and id, the order of a repository's timeline. -/
def repoOrder (a b : TimelineTurnSummary) : Prop :=
  (compare (a.startTimestamp, a.endTimestamp, a.sessionUuid, a.id)
    (b.startTimestamp, b.endTimestamp, b.sessionUuid, b.id)).isLE

instance : DecidableRel repoOrder := fun _ _ => inferInstanceAs (Decidable (_ = true))

/-- `load_repo_timeline_summary_response`. -/
def repoTimeline (repo : String) (s : Store) : TimelineSummaryResponse :=
  let responses := (repoSessions s repo).map fun (session, cs) =>
    let response := loadTimelineSummaryResponse pathMatches filters s session
    { response with turns := annotateTimelineSummaries session cs response.turns }
  { sessionUuid := none
    sessionAgent := none
    totalEventCount := (responses.map TimelineSummaryResponse.totalEventCount).sum
    turns := (responses.flatMap TimelineSummaryResponse.turns).insertionSort repoOrder }

end Load

/-! ## The revisions that the app state reports -/

/-- The sessions whose revisions are added to a session's own. -/
def linkedChildren (links : Finset ChildLink) (session : Uuid) : Finset Uuid :=
  (links.filter fun l => l.sessionUuid = session ∧ l.childSessionUuid ≠ l.sessionUuid).image
    ChildLink.childSessionUuid

/-- `COALESCE(tss.revision, 0) + COALESCE(crev.revision, 0)` of a session. -/
def revisionOf (s : Store) (session : Uuid) : Nat :=
  (s.timelines session).revision
    + ∑ child ∈ linkedChildren s.childLinks session, (s.timelines child).revision

/-- `timeline_revision` in `load_sessions`. -/
def sessionRevision (pty : Uuid) (s : Store) : Nat :=
  ((s.ptySessions[pty]?.bind PtySession.currentSessionUuid).map (revisionOf s)).getD 0

/-- What a PTY adds to the revision of a repository. -/
def revisionShare (s : Store) (repo : String) (row : PtySession) : Nat :=
  if row.repo = repo ∧ row.state ≠ .deleted then
    (row.currentSessionUuid.map fun session => (s.timelines session).revision).getD 0
  else 0

/-- `load_repo_timeline_revisions`. -/
def repoRevision (repo : String) (s : Store) : Nat :=
  Table.total (revisionShare s repo) s.ptySessions

/-! ## The steps -/

/-- `Changes::is_empty`. -/
def isEmptyChanges (changes : Changes) : Bool :=
  changes.turns.isEmpty && changes.items.isEmpty && changes.newOps.isEmpty &&
    changes.updatedOps.isEmpty && decide (changes.links = ∅)

/-- What a rebuild starts from: the session's rows are gone and its revision is the next. -/
def SessionTimeline.cleared (timeline : SessionTimeline) : SessionTimeline :=
  { timeline with projection := {}, revision := timeline.revision + 1, current := true }

def Store.setTimeline (s : Store) (session : Uuid) (timeline : SessionTimeline) : Store :=
  { s with timelines := Function.update s.timelines session timeline }

/-- `project_batch` with the events it finds; a batch that fails commits nothing. -/
def projectBatch (s : Store) (context : Context) (events : List StoredEvent) : Option Store :=
  match s.claudeSessions[context.sessionUuid]? with
  | none => none
  | some cs =>
      if cs.purged then some s
      else
        let timeline := s.timelines context.sessionUuid
        let timeline := if timeline.current then timeline else timeline.cleared
        if events.isEmpty then some (s.setTimeline context.sessionUuid timeline)
        else
          match events.foldlM Reducer.apply (Reducer.new timeline.projection context) with
          | none => none
          | some r =>
              let changes := r.intoChanges
              let s := s.setTimeline context.sessionUuid { timeline with
                projection := { persist timeline.projection changes with links := ∅ }
                revision :=
                  if isEmptyChanges changes then timeline.revision else timeline.revision + 1 }
              some { s with childLinks := s.childLinks ∪ changes.links }

/-- `correlate::apply`, first statement; a new session starts now. -/
def nameSession (s : Store) (session pty : Uuid) (agent : String) (now : Timestamp) : Store :=
  { s with
    claudeSessions := s.claudeSessions.insert session
      { agent := agent
        ptySessionId := some pty
        startedAt := (s.claudeSessions[session]?.map ClaudeSession.startedAt).getD now
        purged := (s.claudeSessions[session]?.map ClaudeSession.purged).getD false } }

/-- `correlate::apply`, second statement. -/
def releaseElsewhere (s : Store) (session pty : Uuid) : Store :=
  { s with
    ptySessions := s.ptySessions.map fun id row =>
      if row.currentSessionUuid = some session ∧ id ≠ pty then
        { row with currentSessionUuid := none }
      else row }

/-- `correlate::apply`, third statement. -/
def setCurrent (s : Store) (session pty : Uuid) : Store :=
  { s with
    ptySessions := s.ptySessions.modify pty fun row =>
      { row with currentSessionUuid := some session } }

/-- `purge_session`: the turns stay, without their items and operations. -/
def purgeSession (s : Store) (session : Uuid) : Option Store :=
  match s.claudeSessions[session]? with
  | none => none
  | some cs =>
      if cs.purged ∨ (Table.rows s.ptySessions).any (fun row =>
          row.currentSessionUuid = some session && row.state = .live) then none
      else
        let timeline := s.timelines session
        let s := s.setTimeline session { timeline with
          projection := { timeline.projection with items := ∅, ops := ∅, touches := ∅, usage := ∅ }
          codexSubagent := false }
        some { s with
          claudeSessions := s.claudeSessions.insert session { cs with purged := true }
          childLinks := s.childLinks.filter fun l => l.sessionUuid ≠ session }

/-- `withdraw_and_clear`, with which a restore begins; the replay is batches again. -/
def withdrawAndClear (s : Store) (session : Uuid) : Option Store :=
  match s.claudeSessions[session]? with
  | none => none
  | some cs =>
      if cs.purged then
        let timeline := s.timelines session
        let s := s.setTimeline session { timeline with
          projection := { timeline.projection with turns := ∅, items := ∅, ops := ∅, touches := ∅ }
          current := false
          codexSubagent := false }
        some
          { s with claudeSessions := s.claudeSessions.insert session { cs with purged := false } }
      else none

inductive Step
  | projectBatch (context : Context) (events : List StoredEvent)
  | requestRebuild (session : Uuid)
  /-- Events arrive, which show whether it is a Codex subagent's session. -/
  | ingest (session : Uuid) (codexSubagent : Bool)
  | nameSession (session pty : Uuid) (agent : String) (now : Timestamp)
  | releaseElsewhere (session pty : Uuid)
  | setCurrent (session pty : Uuid)
  | purge (session : Uuid)
  | withdraw (session : Uuid)

def step (s : Store) : Step → Option Store
  | .projectBatch context events => projectBatch s context events
  | .requestRebuild session =>
      some (s.setTimeline session { s.timelines session with current := false })
  | .ingest session codexSubagent =>
      some (s.setTimeline session { s.timelines session with codexSubagent := codexSubagent })
  | .nameSession session pty agent now => some (nameSession s session pty agent now)
  | .releaseElsewhere session pty => some (releaseElsewhere s session pty)
  | .setCurrent session pty => some (setCurrent s session pty)
  | .purge session => purgeSession s session
  | .withdraw session => withdrawAndClear s session

end Sulion.Timeline.Summaries
