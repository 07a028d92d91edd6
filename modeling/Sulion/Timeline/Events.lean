import Sulion.Rust.Json

set_option autoImplicit false

/-! # Canonical events as the timeline reads them

A stored event and its blocks, and how the timeline reads them: who speaks, whether the event
is a prompt, a tool call or result, or bookkeeping, and its display text.

The event's `source_session`, which the reducer never reads, is left out.
-/

namespace Sulion.Timeline

open Sulion.Rust

inductive BlockKind
  | text | thinking | toolUse | toolResult | unknown
  deriving DecidableEq, Repr

inductive OperationCategory
  | createContent | inspect | utility | research | delegate | workflow | plan | other
  deriving DecidableEq, Repr

/-- One block of an event. -/
structure Block where
  ord : Int
  kind : BlockKind
  text : Option String := none
  toolId : Option String := none
  toolName : Option String := none
  toolNameCanonical : Option String := none
  operationType : Option String := none
  operationCategory : Option OperationCategory := none
  toolInput : Option Json := none
  toolOutput : Option Json := none
  isError : Option Bool := none
  raw : Option Json := none

/-- `StoredEvent`. -/
structure StoredEvent where
  byteOffset : Int
  timestamp : Timestamp
  kind : String
  agent : String
  speaker : Option String
  contentKind : Option String
  eventUuid : Option String
  parentEventUuid : Option String
  relatedToolUseId : Option String
  isSidechain : Bool
  isMeta : Bool
  subtype : Option String
  /-- Claude per-message usage, Codex cumulative session totals. -/
  usageJson : Option Json
  /-- The Claude message the usage belongs to. -/
  usageMessageId : Option String
  blocks : List Block

/-! ## Bookkeeping -/

def localCommandPrefixes : List String :=
  ["<command-name>", "<command-message>", "<local-command-stdout>", "<local-command-stderr>",
    "<local-command-caveat>"]

def isLocalCommandText (text : String) : Bool :=
  localCommandPrefixes.any fun start => startsWith (trimStart text) start

def bookkeepingSystemSubtypes : List String :=
  ["stop_hook_summary", "turn_duration", "runtime_evidence"]

def isBookkeepingSystemSubtype (subtype : Option String) : Bool :=
  subtype.any (bookkeepingSystemSubtypes.contains ·)

def bookkeepingKinds : List String :=
  ["agent-name", "api-request", "api-request-blob", "ai-title", "attachment", "bridge-session",
    "custom-title", "cost-state", "file-history-delta", "file-history-snapshot", "frame-link",
    "last-prompt", "inter_agent_communication_metadata", "mode", "permission-mode",
    "queue-operation", "world_state", "token_usage_record", "atis-latch"]

def recordSpeaker (kind : String) (speaker : Option String) : String :=
  speaker.getD (if kind ∈ ["assistant", "user", "system", "summary"] then kind else "other")

def isBookkeepingRecord (kind : String) (speaker subtype : Option String) (isMeta : Bool)
    (blocks : List Block) : Bool :=
  let speaker := recordSpeaker kind speaker
  (speaker == "other" && blocks.isEmpty) ||
    isMeta ||
    (bookkeepingKinds.contains kind && subtype != some "queued_user_prompt") ||
    (speaker == "system" && isBookkeepingSystemSubtype subtype) ||
    (speaker == "user" &&
      ((blocks.find? fun block => block.kind == .text).bind Block.text).any isLocalCommandText)

/-! ## Reading an event -/

/-- `ToolUseView`. -/
structure ToolUseView where
  id : Option String
  name : String
  rawName : Option String
  operationType : Option String
  category : Option OperationCategory
  input : Option Json
  isError : Bool

def toolUsesIn (event : StoredEvent) : List ToolUseView :=
  (event.blocks.filter fun block => block.kind == .toolUse).map fun block =>
    { isError := block.isError.getD false
      id := block.toolId
      name := (block.toolNameCanonical.or block.toolName).getD "unknown"
      rawName := block.toolName
      operationType := block.operationType
      category := block.operationCategory
      input := block.toolInput }

def textBlocksIn (event : StoredEvent) : List String :=
  (event.blocks.filter fun block => block.kind == .text).filterMap Block.text

def thinkingTextsIn (event : StoredEvent) : List String :=
  ((event.blocks.filter fun block => block.kind == .thinking).filterMap fun block =>
    block.text.map trim).filter (· ≠ "")

def hasUsefulThinking (event : StoredEvent) : Bool := !(thinkingTextsIn event).isEmpty

def isToolResultEvent (event : StoredEvent) : Bool :=
  event.blocks.any fun block => block.kind == .toolResult

def eventSpeaker (event : StoredEvent) : String := recordSpeaker event.kind event.speaker

def isAssistantEvent (event : StoredEvent) : Bool := eventSpeaker event == "assistant"

def isSummaryEvent (event : StoredEvent) : Bool := eventSpeaker event == "summary"

def isSystemEvent (event : StoredEvent) : Bool := eventSpeaker event == "system"

def isBookkeepingEvent (event : StoredEvent) : Bool :=
  isBookkeepingRecord event.kind event.speaker event.subtype event.isMeta event.blocks

def isClaudeTaskNotification (event : StoredEvent) : Bool :=
  event.agent == "claude-code" && event.blocks.any fun block =>
    block.kind == .text && block.text.any fun text =>
      startsWith (trim text) "<task-notification>" &&
        endsWith (trim text) "</task-notification>" && containsText (trim text) "<task-id>"

def isRealUserPrompt (event : StoredEvent) : Bool :=
  eventSpeaker event == "user" && !isBookkeepingEvent event && !isToolResultEvent event &&
    !isClaudeTaskNotification event

/-- Completion telemetry is hidden bookkeeping, but still ends actual work. -/
def advancesTurnTime (event : StoredEvent) : Bool :=
  event.subtype == some "turn_duration" || event.subtype == some "stop_hook_summary" ||
    !isBookkeepingEvent event

theorem not_bookkeeping_of_prompt {event : StoredEvent} (h : isRealUserPrompt event = true) :
    isBookkeepingEvent event = false := by
  simp only [isRealUserPrompt, Bool.and_eq_true, Bool.not_eq_true'] at h
  exact h.1.1.2

/-! ## Display text -/

def userPromptText (event : StoredEvent) : String := " ".intercalate (textBlocksIn event)

/-- `truncate`: at most `max` characters, the last one an ellipsis where text was cut. -/
def truncate (text : String) (max : Nat) : String :=
  if text.length ≤ max then text else takeChars text (max - 1) ++ "…"

def firstParagraph (text : String) (max : Nat) : String :=
  if trim text = "" then ""
  else
    let paragraphs := splitParagraphs (trim text)
    let first := " ".intercalate (splitWhitespace (paragraphs.headD (trim text)))
    let hasMore := (paragraphs.drop 1).any fun part => trim part ≠ ""
    if first.length ≤ max then if hasMore then first ++ " …" else first
    else truncate first max

end Sulion.Timeline
