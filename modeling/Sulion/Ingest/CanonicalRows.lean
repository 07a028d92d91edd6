import Sulion.Ingest.CodexLineage

set_option autoImplicit false

/-! # Canonical rows

The canonical columns of an event row with its block rows, as `insert_event` and
`rewrite_canonical_event` write them. The block rows of an event are a table by their ordinal:
of two blocks with one ordinal the later stays.
-/

namespace Sulion.Ingest

open Rust Timeline

/-- The canonical columns of `events`, and the rows of `event_blocks`. -/
structure CanonicalRow where
  speaker : String
  contentKind : String
  eventUuid : Option String
  parentEventUuid : Option String
  relatedToolUseId : Option String
  isSidechain : Bool
  isMeta : Bool
  subtype : Option String
  searchText : String
  blocks : Table Int Block

/-- A row of `events`. -/
structure StoredRow where
  byteOffset : Int
  kind : String
  payload : Json
  agent : String
  canonical : CanonicalRow

/-- `insert_blocks` into an event without block rows. -/
def insertBlocks (blocks : List Block) : Table Int Block :=
  blocks.foldl (fun rows block => rows.insert block.ord block) ∅

/-- The columns a parsed record is written to. -/
def canonicalRow (h : Helpers) (parsed : CanonicalEvent) : CanonicalRow where
  speaker := parsed.speaker.asStr
  contentKind := parsed.contentKind.asStr
  eventUuid := parsed.eventUuid
  parentEventUuid := parsed.parentEventUuid
  relatedToolUseId := parsed.relatedToolUseId
  isSidechain := parsed.isSidechain
  isMeta := parsed.isMeta
  subtype := parsed.subtype
  searchText := parsed.searchText h
  blocks := insertBlocks parsed.blocks

/-- A complete line of a transcript, or of an archive. `link` is the tool-use id of a subagent's
spawn, or the one the archived row carried. -/
structure Line where
  byteOffset : Int
  payload : Json
  link : Option String

/-- What `insert_event` writes for a parsed line; an inherited record gets no block rows. -/
def insertParsed (h : Helpers) (source : TranscriptSource) (line : Line) (parsed : CanonicalEvent) :
    StoredRow :=
  let linked := { parsed with relatedToolUseId := parsed.relatedToolUseId.or line.link }
  { byteOffset := line.byteOffset
    kind := storedEventKind source line.payload
    payload := line.payload
    agent := parsed.agent
    canonical := { canonicalRow h linked with
      blocks := if linked.subtype = some inheritedHistory then ∅ else insertBlocks linked.blocks } }

/-- The row `insert_event` writes for a line. -/
def insertCanonicalEvent (h : Helpers) (source : TranscriptSource) (session : Uuid)
    (ctx : Option CodexSessionContext) (line : Line) : StoredRow :=
  insertParsed h source line
    (parseCanonicalEvent h source.agentId line.payload session line.byteOffset ctx)

/-- The rows of a run of Codex lines, the context threaded through them. -/
def insertCodexLines (h : Helpers) (session : Uuid) :
    CodexSessionContext → List Line → List StoredRow
  | _, [] => []
  | ctx, line :: lines =>
      insertCanonicalEvent h .codex session (some ctx) line ::
        insertCodexLines h session (updateCodexContext session ctx line.payload) lines

/-- The rows of lines that are inserted in one pass into an empty session, in the order of their
offsets: one tick, or the replay of an archive. -/
def insertLines (h : Helpers) (source : TranscriptSource) (session : Uuid) (lines : List Line) :
    List StoredRow :=
  match source with
  | .claudeCode => lines.map (insertCanonicalEvent h .claudeCode session none)
  | .codex => insertCodexLines h session (.new session) lines

/-! ## The records of a pass -/

/-- The parsed records of a run of Codex lines. -/
def parseCodexLines (h : Helpers) (session : Uuid) :
    CodexSessionContext → List Line → List CanonicalEvent
  | _, [] => []
  | ctx, line :: lines =>
      parseCanonicalEvent h "codex" line.payload session line.byteOffset (some ctx) ::
        parseCodexLines h session (updateCodexContext session ctx line.payload) lines

/-- The parsed records of a pass. -/
def parseLines (h : Helpers) (source : TranscriptSource) (session : Uuid) (lines : List Line) :
    List CanonicalEvent :=
  match source with
  | .claudeCode => lines.map fun line =>
      parseCanonicalEvent h "claude-code" line.payload session line.byteOffset none
  | .codex => parseCodexLines h session (.new session) lines

theorem insertCodexLines_eq (h : Helpers) (session : Uuid) (ctx : CodexSessionContext)
    (lines : List Line) :
    insertCodexLines h session ctx lines =
      List.zipWith (insertParsed h .codex) lines (parseCodexLines h session ctx lines) := by
  induction lines generalizing ctx with
  | nil => rfl
  | cons line lines ih =>
      rw [insertCodexLines, parseCodexLines, List.zipWith_cons_cons, ih]
      rfl

/-- Each line is parsed and then written. -/
theorem insertLines_eq (h : Helpers) (source : TranscriptSource) (session : Uuid)
    (lines : List Line) :
    insertLines h source session lines =
      List.zipWith (insertParsed h source) lines (parseLines h source session lines) := by
  cases source with
  | codex => exact insertCodexLines_eq h session _ lines
  | claudeCode =>
      induction lines with
      | nil => rfl
      | cons line lines ih =>
          simp only [insertLines, parseLines, List.map_cons, List.zipWith_cons_cons] at ih ⊢
          rw [ih]
          rfl

/-! ## The agent of a record -/

theorem codexParse_agent (h : Helpers) (value : Json) : (codexParse h value).agent = "codex" := by
  unfold codexParse codexResponseItem codexEventMsg
  dsimp only
  split
  · split <;> rfl
  all_goals rfl

theorem enrichCodexLineage_agent (parsed : CanonicalEvent) (value : Json) (session : Uuid)
    (byteOffset : Int) (ctx : Option CodexSessionContext) :
    (enrichCodexLineage parsed value session byteOffset ctx).agent = parsed.agent := by
  unfold enrichCodexLineage
  dsimp only
  split
  · rfl
  · split
    · rfl
    · rfl
    · rfl
    · unfold enrichEventMsg
      dsimp only
      split
      · split <;> rfl
      all_goals rfl
    · rfl

theorem parseCanonicalEvent_agent (h : Helpers) (source : TranscriptSource) (value : Json)
    (session : Uuid) (byteOffset : Int) (ctx : Option CodexSessionContext) :
    (parseCanonicalEvent h source.agentId value session byteOffset ctx).agent = source.agentId := by
  cases source with
  | claudeCode => rfl
  | codex =>
      show (enrichCodexLineage (codexParse h value) value session byteOffset ctx).agent = "codex"
      rw [enrichCodexLineage_agent, codexParse_agent]

end Sulion.Ingest
