import Sulion.Timeline.Events

set_option autoImplicit false

/-! # Visible items, runtime evidence and file touches

What the reducer derives from one event or one call, apart from any stored state: the item an
event shows, the runtime evidence a tool-result block carries and how it folds into a call's
input and output, and the files a call touches.

Resolving a path against the repository looks at the file system; it is the field
`normalizeCandidate` of the file-touch context.
-/

namespace Sulion.Timeline

open Sulion.Rust

/-! ## Items -/

inductive TimelineAssistantItem
  | text (text : String)
  | tool (pairId : String)

structure TimelineGenericDetails where
  eventUuid : Option String
  parentEventUuid : Option String
  relatedToolUseId : Option String
  subtype : Option String
  speaker : Option String
  contentKind : Option String
  blocks : List Block

inductive TimelineChunk
  | assistant (items : List TimelineAssistantItem) (thinking : List String)
  | summary (subtype : Option String) (text : String)
  | system (subtype : Option String) (text : String) (isMeta : Bool)
  | agentMessage (author recipient : String) (messageType : Option String) (text : String)
  | generic (label : String) (details : TimelineGenericDetails) (isMeta : Bool)

/-- Strip only a complete harness envelope, leaving ordinary message text alone. -/
def unwrapEnvelope (text : String) : Option (String × String) := do
  let (messageType, rest) ← splitOnce (← stripStart text "Message Type: ") "\n"
  let (_, rest) ← splitOnce (← stripStart rest "Task name: ") "\n"
  let (_, rest) ← splitOnce (← stripStart rest "Sender: ") "\n"
  let body ← stripStart rest "Payload:"
  let body :=
    (((stripStart body "\r\n").or (stripStart body "\n")).or (stripStart body " ")).getD body
  return (trim messageType, body)

/-- `agent_messages::project`. -/
def projectAgentMessage (event : StoredEvent) : Option TimelineChunk := do
  guard (event.agent = "codex" ∧ event.subtype = some "agent_message")
  let blocks := textBlocksIn event
  let route ← stripStart (← blocks.head?) "Agent message: "
  let (author, recipient) ← splitOnce route " → "
  let text := "\n\n".intercalate (blocks.drop 1)
  match unwrapEnvelope text with
  | some (messageType, body) => return .agentMessage author recipient (some messageType) body
  | none => return .agentMessage author recipient none text

/-- The parts of an assistant event that show. -/
def assistantItems (blocks : List Block) : List TimelineAssistantItem :=
  blocks.filterMap fun block =>
    match block.kind with
    | .text => (block.text.filter (· ≠ "")).map .text
    | .toolUse => block.toolId.map .tool
    | _ => none

/-- The event's visible content, if any. Tool results show on their operation instead. -/
def visibleItem (event : StoredEvent) : Option TimelineChunk :=
  if isToolResultEvent event then none
  else if isAssistantEvent event then
    let items := assistantItems event.blocks
    let thinking := thinkingTextsIn event
    if items.isEmpty && thinking.isEmpty then none else some (.assistant items thinking)
  else
    match projectAgentMessage event with
    | some message => some message
    | none =>
        let text := " ".intercalate (textBlocksIn event)
        if isSummaryEvent event then some (.summary event.subtype text)
        else if isSystemEvent event then some
          (.system event.subtype text (isBookkeepingEvent event))
        else
          some (.generic event.kind
            { eventUuid := event.eventUuid
              parentEventUuid := event.parentEventUuid
              relatedToolUseId := event.relatedToolUseId
              subtype := event.subtype
              speaker := event.speaker
              contentKind := event.contentKind
              blocks := event.blocks }
            (isBookkeepingEvent event))

/-! ## Runtime evidence -/

/-- `value[key]`: null where there is nothing. -/
def index (value : Json) (key : String) : Json := (value.get key).getD .null

/-- The runtime evidence carried by a tool-result block, if it is one. -/
def runtimeEvidence (block : Block) : Option Json :=
  block.toolOutput.filter fun value => (value.get "runtime_item").isSome

/-- Whether failed evidence fails the call it folds into. -/
def failsCall (category : Option OperationCategory) (evidence : Json) : Bool :=
  category != some .createContent ||
    (index (index evidence "runtime_item") "type").asStr == some "FileChange"

/-- Evidence that matched no single call stays on its own event as bookkeeping text. -/
def markUncorrelated (event : StoredEvent) (evidence : Json) : StoredEvent :=
  let item := index evidence "runtime_item"
  let text :=
    "Uncorrelated runtime evidence: " ++ ((index item "type").asStr.getD "unknown") ++ " (" ++
    ((index item "id").asStr.getD "unknown id") ++ ") — " ++
      ((index item "status").asStr.getD "completed")
  { event with
    blocks := [{ ord := 0, kind := .text, text := some text },
      { ord := 1, kind := .unknown, raw := some evidence }]
    isMeta := true
    contentKind := some "text"
    subtype := some "runtime_evidence" }

/-- `push`: append to the array under a key, which is created where it is missing. -/
def pushField (object : Json) (key : String) (value : Json) : Json :=
  match object with
  | .obj fields =>
      match fields.lookup key with
      | none => .obj (Json.insertField fields key (.arr [value]))
      | some (.arr items) => .obj (Json.insertField fields key (.arr (items ++ [value])))
      | some _ => object
  | _ => object

/-- `object[key] = value`. -/
def setField (object : Json) (key : String) (value : Json) : Json :=
  match object with
  | .obj fields => .obj (Json.insertField fields key value)
  | _ => object

/-- The value itself where it is an object, else an object that holds it under `key`. -/
def asObjectUnder (key : String) (value : Option Json) : Json :=
  match value with
  | none => .obj []
  | some (.obj fields) => .obj fields
  | some other => .obj [(key, other)]

/-- The edit that a runtime item's change to `path` amounts to. -/
def runtimeEdit (item : Json) (path : String) (change : Json) : Json :=
  let movePath := change.strAt "move_path"
  .obj [("content", index change "content"), ("diff", index change "unified_diff"),
    ("old_path", if movePath.isSome then .str path else .null), ("operation", index change "type"),
    ("path", .str (movePath.getD path)), ("status", index item "status")]

/-- Put an edit in the place of the one of the same path, else at the end. -/
def replaceEdit (edits : List Json) (edit : Json) : List Json :=
  let samePath (e : Json) : Bool := (index e "path").asStr == (index edit "path").asStr
  if edits.any samePath then
    edits.take (edits.findIdx samePath) ++ edit :: edits.drop (edits.findIdx samePath + 1)
  else edits ++ [edit]

/-- Record one edit under `file_edits`. -/
def recordEdit (input edit : Json) : Json :=
  match input.get "file_edits" with
  | none => setField input "file_edits" (.arr [edit])
  | some (.arr edits) => setField input "file_edits" (.arr (replaceEdit edits edit))
  | some _ => input

/-- The command and cwd a command execution ran, where the input names none. -/
def recordCommand (input item : Json) : Json :=
  let input :=
    match input.get "command", (item.get "command").bind Json.asArray with
    | none, some command =>
        setField input "command" (.str (" ".intercalate (command.filterMap Json.asStr)))
    | _, _ => input
  match input.get "cwd" with
  | none => setField input "cwd" (index item "cwd")
  | some _ => input

/-- Fold one piece of runtime evidence into the call's input. -/
def attachToInput (input : Option Json) (evidence : Json) : Option Json :=
  let item := index evidence "runtime_item"
  let input := pushField (asObjectUnder "original_input" input) "runtime_items" evidence
  let input :=
    if item.strAt "type" = some "CommandExecution" then recordCommand input item else input
  match item.get "changes" with
  | some (.obj changes) =>
      some
        (changes.foldl (fun input (path, change) => recordEdit input (runtimeEdit item path change))
        input)
  | _ => some input

/-- Fold one piece of runtime evidence into the call's result payload. -/
def attachToOutput (output : Option Json) (evidence : Json) : Option Json :=
  some (pushField (asObjectUnder "original_output" output) "runtime_items" evidence)

/-- The cell a result reports as still running; only the execution envelope signals one. -/
def runningCell (text : Option String) : Option String := do
  let rest ← stripStart (← firstLine (← text)) "Script running with cell ID "
  (splitWhitespace rest).head?

/-! ## Tool pairs and the files they touch -/

structure TimelineToolResult where
  content : Option String
  payload : Option Json
  isError : Bool

/-- `TimelineToolPair`, without the child transcript that readers attach. -/
structure TimelineToolPair where
  id : String
  name : String
  rawName : Option String
  operationType : Option String
  category : Option OperationCategory
  input : Option Json
  result : Option TimelineToolResult
  isError : Bool
  isPending : Bool

structure TimelineFileTouch where
  repo : String
  path : String
  touchKind : String
  isWrite : Bool
  deriving DecidableEq

structure FileTouchContext where
  repoName : String
  /-- The repository path a candidate names, if it names a file of the repository. -/
  normalizeCandidate : String → Option String

/-- `pair_operation_type`. -/
def pairOperationType (pair : TimelineToolPair) : String := pair.operationType.getD pair.name

def commandText (input : Option Json) : Option String :=
  match input with
  | some (.obj fields) => ((Json.obj fields).strAt "command").or ((Json.obj fields).strAt "cmd")
  | _ => none

def writeTypes : List String :=
  ["write", "edit", "multi_edit", "apply_patch", "create", "update", "delete", "add", "remove"]

def isCommandType (type : String) : Bool := ["bash", "exec", "exec_command"].contains type

def touchKindForPair (pair : TimelineToolPair) : String :=
  if (commandText pair.input).isSome then "command"
  else if writeTypes.contains (pairOperationType pair) then "write"
  else if isCommandType (pairOperationType pair) then "command"
  else "inspect"

def isWritePair (pair : TimelineToolPair) : Bool := writeTypes.contains (pairOperationType pair)

def isCommandPair (pair : TimelineToolPair) : Bool :=
  (commandText pair.input).isSome || isCommandType (pairOperationType pair)

def cleanCommandToken (token : String) : Option String :=
  let trimmed := trimMatches token fun ch =>
    ['"', '\'', '\x60', ',', ';', ':', '(', ')', '[', ']', '{', '}', '|'].contains ch
  if trimmed = "" then none else some trimmed

/-- Whether a shell token has the shape of a file path. -/
def isPathLikeToken (token : String) : Bool :=
  if token = "" || !(token.toList.all fun ch =>
      ch.isAlphanum || ['/', '.', '_', '-', '+', '@'].contains ch) then false
  else if token.toList.contains '/' then token != "." && token != ".."
  else
    match rsplitOnce token '.' with
    | none => false
    | some (stem, ext) =>
        stem != "" && stem.toList.any Char.isAlpha &&
          (1 ≤ ext.utf8ByteSize && ext.utf8ByteSize ≤ 5) && ext.toList.all Char.isAlphanum

/-- The candidates a call names, in order: each with its touch kind and whether it is a
write. -/
def touchCandidates (pair : TimelineToolPair) : List (String × String × Bool) :=
  let kind := touchKindForPair pair
  let isWrite := isWritePair pair
  let own (raw : String) := (raw, kind, isWrite)
  let input := pair.input.getD .null
  let single := ["path", "file_path", "old_path", "new_path"].filterMap input.strAt
  let listed := ["paths", "files"].flatMap fun key =>
    (((input.get key).bind Json.asArray).getD []).filterMap Json.asStr
  let entries := ((input.get "file_edits").bind Json.asArray).getD []
  let edited := entries.flatMap fun entry => ["path", "old_path"].filterMap entry.strAt
  -- Command text is tokenised only when the canonicaliser produced no structured edit list.
  let tokens :=
    if isCommandPair pair && entries.isEmpty then
      ((splitWhitespace ((commandText pair.input).getD "")).filterMap cleanCommandToken).filter
        isPathLikeToken
    else []
  single.map own ++ listed.map own ++ edited.map (fun raw => (raw, "write", true)) ++ tokens.map own

def pushTouch (context : FileTouchContext) (out : List TimelineFileTouch)
    (candidate : String × String × Bool) : List TimelineFileTouch :=
  match context.normalizeCandidate candidate.1 with
  | none => out
  | some path =>
      if out.any fun touch => touch.path == path && touch.touchKind == candidate.2.1 then out
      else
        out ++ [{ repo := context.repoName, path := path, touchKind := candidate.2.1,
                  isWrite := candidate.2.2 }]

def extractFileTouches (pair : TimelineToolPair) (context : Option FileTouchContext) :
    List TimelineFileTouch :=
  match context with
  | none => []
  | some context => (touchCandidates pair).foldl (pushTouch context) []

/-- **The files a call touches depend on its name, type and input only**, not on its result. -/
theorem extractFileTouches_congr {pair pair' : TimelineToolPair} (hname : pair.name = pair'.name)
    (htype : pair.operationType = pair'.operationType) (hinput : pair.input = pair'.input)
    (context : Option FileTouchContext) :
    extractFileTouches pair context = extractFileTouches pair' context := by
  have htype' : pairOperationType pair = pairOperationType pair' := by
    rw [pairOperationType, pairOperationType, hname, htype]
  have hkind : touchKindForPair pair = touchKindForPair pair' := by
    rw [touchKindForPair, touchKindForPair, htype', hinput]
  have hwrite : isWritePair pair = isWritePair pair' := by rw [isWritePair, isWritePair, htype']
  have hcommand : isCommandPair pair = isCommandPair pair' := by
    rw [isCommandPair, isCommandPair, htype', hinput]
  have hcandidates : touchCandidates pair = touchCandidates pair' := by
    unfold touchCandidates
    rw [hkind, hwrite, hcommand, hinput]
  unfold extractFileTouches
  rw [hcandidates]

end Sulion.Timeline
