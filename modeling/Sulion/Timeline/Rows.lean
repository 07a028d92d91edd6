import Sulion.Lib.WriteBack
import Sulion.Timeline.Items

set_option autoImplicit false

/-! # The rows of a session's timeline

The session state, turns, operations, message usage and child links that the reducer keeps,
and the pure changes one event makes to each of them.

Counters that go up by one for each stored row are natural numbers. Token counts come from
the transcript as they are, so their `i64` arithmetic wraps as it does in a release build.
Offsets, which are positions in a file, are integers.
-/

namespace Sulion.Timeline

open Sulion.Rust

def noPromptPreview : String := "(no user prompt)"

/-- `SessionState`: reducer state that is not a turn, item or operation. -/
structure SessionState where
  /-- Highest byte offset applied. -/
  projectedThrough : Int := -1
  nextTurnOrd : Nat := 0
  /-- Main-line turn receiving non-prompt events. -/
  currentMain : Option Int := none
  /-- Sidechain turn receiving in-file sidechain events. -/
  currentSidechain : Option Int := none
  codexInputTotal : Option Int := none
  codexOutputTotal : Option Int := none
  totalEventCount : Nat := 0
  turnCount : Nat := 0
  latestTurnId : Option Int := none
  latestEventAt : Option Timestamp := none
  deriving DecidableEq

structure TurnRow where
  turnId : Int
  turnOrd : Nat
  isSidechain : Bool
  preview : String
  userPromptText : Option String
  promptEventUuid : Option String
  startTimestamp : Timestamp
  endTimestamp : Timestamp
  durationMs : Int
  eventCount : Nat
  operationCount : Nat
  thinkingCount : Nat
  hasErrors : Bool
  inputTokens : Int
  outputTokens : Int
  /-- Codex cumulative totals when the turn began. -/
  usageBaselineInput : Int
  usageBaselineOutput : Int
  deriving DecidableEq

/-- The key of an operation: its turn and its number there. -/
abbrev OpKey := Int × Nat

structure OpRow where
  turnId : Int
  operationOrd : Nat
  pairId : String
  name : String
  rawName : Option String
  operationType : Option String
  category : Option OperationCategory
  input : Option Json
  resultContent : Option String
  resultPayload : Option Json
  resultIsError : Bool
  isError : Bool
  isPending : Bool
  callOffset : Int
  callAt : Timestamp
  /-- Byte offset of the event that last changed the row. -/
  changedAt : Int
  callError : Bool
  /-- Set while the call's result reports a still-running code cell. -/
  runningCell : Option String
  /-- When the call's work ended; open calls enclose later runtime evidence. -/
  finishedAt : Option Timestamp

/-- A Claude response's latest usage and the turn it is charged to. -/
structure MessageUsage where
  turnId : Int
  inputTokens : Int
  outputTokens : Int
  deriving DecidableEq

/-- A spawning call and the transcript it produced: a whole child session (`childTurnId` -1) or
a sidechain turn of the same session. -/
structure ChildLink where
  sessionUuid : Uuid
  pairId : String
  childSessionUuid : Uuid
  childTurnId : Int
  deriving DecidableEq

/-! ## Operations -/

namespace OpRow

def key (op : OpRow) : OpKey := (op.turnId, op.operationOrd)

def pair (op : OpRow) : TimelineToolPair :=
  { id := op.pairId
    name := op.name
    rawName := op.rawName
    operationType := op.operationType
    category := op.category
    input := op.input
    result :=
      if op.resultContent.isSome || op.resultPayload.isSome then
        some
          { content := op.resultContent, payload := op.resultPayload, isError := op.resultIsError }
      else none
    isError := op.isError
    isPending := op.isPending }

def toolShortName (op : OpRow) : Option String := op.rawName.map fun name => afterLast name '.'

/-- The runtime-evidence window of an `exec` call: evidence that started inside it, or arrived
while it had not finished. -/
def encloses (op : OpRow) (started : Option Timestamp) : Bool :=
  op.toolShortName == some "exec" &&
    match started with
    | some start =>
        decide (op.callAt.timestampMillis ≤ start.timestampMillis) &&
          op.finishedAt.all fun finish => decide (start.timestampMillis ≤ finish.timestampMillis)
    | none => op.finishedAt.isNone

/-- The columns of a call that no later event changes. -/
def SameCall (op op' : OpRow) : Prop :=
  op.turnId = op'.turnId ∧ op.operationOrd = op'.operationOrd ∧ op.pairId = op'.pairId ∧
    op.name = op'.name ∧ op.rawName = op'.rawName ∧ op.operationType = op'.operationType ∧
    op.category = op'.category ∧ op.callOffset = op'.callOffset ∧ op.callAt = op'.callAt

end OpRow

/-- The row of a new call: the `operationOrd`-th of its turn. -/
def newOp (turnId : Int) (operationOrd : Nat) (tool : ToolUseView) (event : StoredEvent) : OpRow :=
  { turnId := turnId
    operationOrd := operationOrd
    pairId := tool.id.getD ("noid-" ++ toString operationOrd)
    name := tool.name
    rawName := tool.rawName
    operationType := tool.operationType
    category := tool.category
    input := tool.input
    resultContent := none
    resultPayload := none
    resultIsError := false
    isError := tool.isError
    isPending := true
    callOffset := event.byteOffset
    callAt := event.timestamp
    changedAt := event.byteOffset
    callError := tool.isError
    runningCell := none
    finishedAt := none }

/-- The evidence already folded into a call. -/
def runtimeItems (op : OpRow) : List Json :=
  ((op.input.bind fun input => input.get "runtime_items").bind Json.asArray).getD []

/-- A result lands on its call; the last one wins. Evidence already folded into the call
belongs on the result too. -/
def setResult (op : OpRow) (block : Block) (event : StoredEvent) : OpRow :=
  let payload := (runtimeItems op).foldl attachToOutput block.toolOutput
  let cell := runningCell block.text
  { op with
    resultContent := block.text
    resultPayload := payload
    resultIsError := block.isError.getD false || op.callError
    isPending := false
    isError := op.callError || (block.isError.getD false || op.callError)
    changedAt := event.byteOffset
    runningCell := cell
    finishedAt := if cell.isSome then none else some event.timestamp }

/-- The cell a call was still running in has completed. -/
def closeCell (event : StoredEvent) (op : OpRow) : OpRow :=
  { op with
    runningCell := none
    finishedAt := some event.timestamp
    changedAt := event.byteOffset }

/-- One piece of runtime evidence folds into the call it belongs to. -/
def foldEvidence (event : StoredEvent) (evidence : Json) (failed : Bool) (op : OpRow) : OpRow :=
  let failed := failed && failsCall op.category evidence
  let callError := op.callError || failed
  let resultIsError := if op.isPending then op.resultIsError else op.resultIsError || failed
  { op with
    callError := callError
    input := attachToInput op.input evidence
    resultPayload :=
      if op.isPending then op.resultPayload else attachToOutput op.resultPayload evidence
    resultIsError := resultIsError
    isError := callError || resultIsError
    changedAt := event.byteOffset }

/-- The cell that a completed `wait` waited on. -/
def waitedCell (wait : OpRow) (block : Block) : Option String :=
  if wait.toolShortName = some "wait" ∧ runningCell block.text = none then
    wait.input.bind fun input => input.strAt "cell_id"
  else none

/-! ## What the changes to a call keep -/

theorem OpRow.SameCall.key_eq {op op' : OpRow} (h : op.SameCall op') : op.key = op'.key :=
  Prod.ext h.1 h.2.1

theorem OpRow.SameCall.refl (op : OpRow) : op.SameCall op :=
  ⟨rfl, rfl, rfl, rfl, rfl, rfl, rfl, rfl, rfl⟩

theorem OpRow.SameCall.trans {a b c : OpRow} (h : a.SameCall b) (h' : b.SameCall c) :
    a.SameCall c := by
  unfold OpRow.SameCall at *
  grind

theorem sameCall_setResult (op : OpRow) (block : Block) (event : StoredEvent) :
    op.SameCall (setResult op block event) :=
  ⟨rfl, rfl, rfl, rfl, rfl, rfl, rfl, rfl, rfl⟩

theorem sameCall_closeCell (event : StoredEvent) (op : OpRow) : op.SameCall (closeCell event op) :=
  ⟨rfl, rfl, rfl, rfl, rfl, rfl, rfl, rfl, rfl⟩

theorem sameCall_foldEvidence (event : StoredEvent) (evidence : Json) (failed : Bool) (op : OpRow) :
    op.SameCall (foldEvidence event evidence failed op) :=
  ⟨rfl, rfl, rfl, rfl, rfl, rfl, rfl, rfl, rfl⟩

/-! ## Which evidence belongs to which call -/

/-- The evidence of an event, each with its block's error flag. -/
def evidenceIn (event : StoredEvent) : List (Json × Bool) :=
  event.blocks.filterMap fun block =>
    (runtimeEvidence block).map fun value => (value, block.isError.getD false)

/-- `evidence["runtime_item"]["id"].as_str()`. -/
def evidenceId (evidence : Json) : Option String :=
  (index (index evidence "runtime_item") "id").asStr

/-- `DateTime::from_timestamp_millis`, in the range of `DateTime<Utc>`. -/
def fromTimestampMillis (ms : Int) : Option Timestamp :=
  if -8334601228800000 ≤ ms ∧ ms ≤ 8210266876799999 then some (ms * 1000) else none

/-- When the evidence says its work started. -/
def evidenceStart (evidence : Json) : Option Timestamp :=
  ((evidence.get "started_at_ms").bind Json.asI64).bind fromTimestampMillis

/-- Whether a call that does not carry the evidence's id may own it. -/
def enclosing (event : StoredEvent) (evidence : Json) (op : OpRow) : Bool :=
  decide (op.callOffset < event.byteOffset) && some op.pairId != evidenceId evidence &&
    op.encloses (evidenceStart evidence)

/-! ## Turns and the session -/

/-- `o.max(Some(x))`. -/
def maxSome (o : Option Int) (x : Int) : Option Int := some (o.elim x (max · x))

/-- A new turn seeded by `first`: its prompt, or the first event of a turn without one. -/
def newTurn (state : SessionState) (first : StoredEvent) (prompt sidechain : Bool) : TurnRow :=
  let promptText := if prompt then some (userPromptText first) else none
  { turnId := first.byteOffset
    turnOrd := state.nextTurnOrd
    isSidechain := sidechain
    preview :=
      match promptText.filter (· ≠ "") with
      | none => noPromptPreview
      | some text => firstParagraph text 280
    userPromptText := promptText
    promptEventUuid := if prompt then first.eventUuid else none
    startTimestamp := first.timestamp
    endTimestamp := first.timestamp
    durationMs := 0
    eventCount := if prompt then 1 else 0
    operationCount := 0
    thinkingCount := 0
    hasErrors := false
    inputTokens := 0
    outputTokens := 0
    usageBaselineInput := state.codexInputTotal.getD 0
    usageBaselineOutput := state.codexOutputTotal.getD 0 }

namespace SessionState

/-- The session after a turn was created. -/
def openTurn (state : SessionState) (first : StoredEvent) (prompt sidechain : Bool) :
    SessionState :=
  { state with
    nextTurnOrd := state.nextTurnOrd + 1
    turnCount := state.turnCount + 1
    totalEventCount := state.totalEventCount + (if prompt then 1 else 0)
    latestTurnId := maxSome state.latestTurnId first.byteOffset
    latestEventAt := maxSome state.latestEventAt first.timestamp
    currentMain := if sidechain then state.currentMain else some first.byteOffset
    currentSidechain := if sidechain then some first.byteOffset else state.currentSidechain }

/-- The session after an event was appended to a turn. -/
def countEvent (state : SessionState) (event : StoredEvent) : SessionState :=
  { state with
    totalEventCount := state.totalEventCount + 1
    latestEventAt := maxSome state.latestEventAt event.timestamp }

/-- The cursor after an event. -/
def advance (state : SessionState) (event : StoredEvent) : SessionState :=
  { state with projectedThrough := max state.projectedThrough event.byteOffset }

end SessionState

namespace TurnRow

/-- The turn after one more event. -/
def countEvent (event : StoredEvent) (turn : TurnRow) : TurnRow :=
  if advancesTurnTime event then
    let finish := max turn.endTimestamp event.timestamp
    { turn with
      eventCount := turn.eventCount + 1
      endTimestamp := finish
      durationMs := max (Int.tdiv (finish - turn.startTimestamp) 1000) 0 }
  else { turn with eventCount := turn.eventCount + 1 }

/-- The turn after one more call. -/
def countCall (tool : ToolUseView) (turn : TurnRow) : TurnRow :=
  { turn with
    hasErrors := turn.hasErrors || tool.isError
    operationCount := turn.operationCount + 1 }

/-- Thinking and the preview of an assistant event. -/
def noteReply (event : StoredEvent) (turn : TurnRow) : TurnRow :=
  let text := " ".intercalate (textBlocksIn event)
  { turn with
    thinkingCount := turn.thinkingCount + (if hasUsefulThinking event then 1 else 0)
    preview :=
      if turn.preview = noPromptPreview ∧ text ≠ "" then "(assistant) " ++ firstParagraph text 260
      else turn.preview }

def noteError (isError : Bool) (turn : TurnRow) : TurnRow :=
  { turn with hasErrors := turn.hasErrors || isError }

/-- The columns of a turn that no later event changes. -/
def SameSeed (turn turn' : TurnRow) : Prop :=
  turn.turnId = turn'.turnId ∧ turn.turnOrd = turn'.turnOrd ∧
    turn.isSidechain = turn'.isSidechain ∧ turn.userPromptText = turn'.userPromptText ∧
    turn.promptEventUuid = turn'.promptEventUuid ∧
    turn.startTimestamp = turn'.startTimestamp ∧
    turn.usageBaselineInput = turn'.usageBaselineInput ∧
    turn.usageBaselineOutput = turn'.usageBaselineOutput

end TurnRow

/-! ## Usage -/

/-- `token`: a number of a usage record, zero where there is none. -/
def token (usage : Json) (key : String) : Int := ((usage.get key).bind Json.asI64).getD 0

/-- What a Claude usage record bills: all input tokens, cached or not, and the output tokens. -/
def claudeTokens (usage : Json) : Int × Int :=
  (wrapI64 (wrapI64 (token usage "input_tokens" + token usage "cache_read_input_tokens") +
      token usage "cache_creation_input_tokens"),
    token usage "output_tokens")

namespace TurnRow

/-- The turn's share of cumulative Codex totals. -/
def setTotals (totals : Int × Int) (turn : TurnRow) : TurnRow :=
  { turn with
    inputTokens := max (wrapI64 (totals.1 - turn.usageBaselineInput)) 0
    outputTokens := max (wrapI64 (totals.2 - turn.usageBaselineOutput)) 0 }

def addTokens (tokens : Int × Int) (turn : TurnRow) : TurnRow :=
  { turn with
    inputTokens := wrapI64 (turn.inputTokens + tokens.1)
    outputTokens := wrapI64 (turn.outputTokens + tokens.2) }

def subTokens (tokens : Int × Int) (turn : TurnRow) : TurnRow :=
  { turn with
    inputTokens := wrapI64 (turn.inputTokens - tokens.1)
    outputTokens := wrapI64 (turn.outputTokens - tokens.2) }

end TurnRow

/-! ## What the changes to a turn keep -/

namespace TurnRow

/-- A change that keeps the turn's seed. -/
def KeepsSeed (f : TurnRow → TurnRow) : Prop := ∀ turn : TurnRow, turn.SameSeed (f turn)

/-- A change that keeps the turn's counters. -/
def KeepsCounts (f : TurnRow → TurnRow) : Prop :=
  ∀ turn, (f turn).eventCount = turn.eventCount ∧ (f turn).operationCount = turn.operationCount

theorem SameSeed.refl (turn : TurnRow) : turn.SameSeed turn :=
  ⟨rfl, rfl, rfl, rfl, rfl, rfl, rfl, rfl⟩

theorem SameSeed.trans {a b c : TurnRow} (h : a.SameSeed b) (h' : b.SameSeed c) : a.SameSeed c := by
  unfold SameSeed at *
  grind

theorem keepsSeed_countEvent (event : StoredEvent) : KeepsSeed (countEvent event) := by
  intro turn
  unfold countEvent
  split <;> exact ⟨rfl, rfl, rfl, rfl, rfl, rfl, rfl, rfl⟩

theorem keepsSeed_countCall (tool : ToolUseView) : KeepsSeed (countCall tool) :=
  fun _ => ⟨rfl, rfl, rfl, rfl, rfl, rfl, rfl, rfl⟩

theorem keepsSeed_noteReply (event : StoredEvent) : KeepsSeed (noteReply event) :=
  fun _ => ⟨rfl, rfl, rfl, rfl, rfl, rfl, rfl, rfl⟩

theorem keepsSeed_noteError (isError : Bool) : KeepsSeed (noteError isError) :=
  fun _ => ⟨rfl, rfl, rfl, rfl, rfl, rfl, rfl, rfl⟩

theorem keepsSeed_setTotals (totals : Int × Int) : KeepsSeed (setTotals totals) :=
  fun _ => ⟨rfl, rfl, rfl, rfl, rfl, rfl, rfl, rfl⟩

theorem keepsSeed_addTokens (tokens : Int × Int) : KeepsSeed (addTokens tokens) :=
  fun _ => ⟨rfl, rfl, rfl, rfl, rfl, rfl, rfl, rfl⟩

theorem keepsSeed_subTokens (tokens : Int × Int) : KeepsSeed (subTokens tokens) :=
  fun _ => ⟨rfl, rfl, rfl, rfl, rfl, rfl, rfl, rfl⟩

theorem keepsCounts_noteReply (event : StoredEvent) : KeepsCounts (noteReply event) :=
  fun _ => ⟨rfl, rfl⟩

theorem keepsCounts_noteError (isError : Bool) : KeepsCounts (noteError isError) :=
  fun _ => ⟨rfl, rfl⟩

theorem keepsCounts_setTotals (totals : Int × Int) : KeepsCounts (setTotals totals) :=
  fun _ => ⟨rfl, rfl⟩

theorem keepsCounts_addTokens (tokens : Int × Int) : KeepsCounts (addTokens tokens) :=
  fun _ => ⟨rfl, rfl⟩

theorem keepsCounts_subTokens (tokens : Int × Int) : KeepsCounts (subTokens tokens) :=
  fun _ => ⟨rfl, rfl⟩

theorem eventCount_countEvent (event : StoredEvent) (turn : TurnRow) :
    (countEvent event turn).eventCount = turn.eventCount + 1 := by
  unfold countEvent
  split <;> rfl

theorem operationCount_countEvent (event : StoredEvent) (turn : TurnRow) :
    (countEvent event turn).operationCount = turn.operationCount := by
  unfold countEvent
  split <;> rfl

end TurnRow

/-! ## Child links -/

/-- The links an event records: a Claude subagent file links its spawning call in the parent;
a Codex spawn event names the child thread it started. -/
def eventLinks (parseUuid : String → Option Uuid) (session : Uuid) (childOf : Option Uuid)
    (event : StoredEvent) : Finset ChildLink :=
  match event.relatedToolUseId with
  | none => ∅
  | some pairId =>
      let parent : Finset ChildLink :=
        match childOf with
        | none => ∅
        | some parent => {⟨parent, pairId, session, -1⟩}
      let spawned : Option Uuid :=
        if event.agent = "codex" ∧ (event.subtype = some "collab_agent_spawn_end" ∨
            event.subtype = some "item_completed") then
          (event.eventUuid.bind parseUuid).filter (· ≠ session)
        else none
      match spawned with
      | none => parent
      | some child => insert ⟨session, pairId, child, -1⟩ parent

/-- The link of an in-file sidechain turn whose seed names its spawning call. -/
def sidechainLinks (session : Uuid) (childOf : Option Uuid) (turnId : Int) (seed : StoredEvent) :
    Finset ChildLink :=
  match childOf, seed.relatedToolUseId with
  | none, some pairId => {⟨session, pairId, session, turnId⟩}
  | _, _ => ∅

end Sulion.Timeline
