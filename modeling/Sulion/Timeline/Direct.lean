import Sulion.Timeline.Reduce

set_option autoImplicit false

/-! # The timeline without batches

What the reducer is for, stated without a cache: one event changes the tables of the session,
and the next event sees them. `Projection.step` is that function; every query reads the
tables as they are. The reducer is proved to refine it in `Timeline/Overlay.lean`, whatever
the batches.
-/

namespace Sulion.Timeline

open Sulion.Rust

namespace Projection

variable (context : Context)

/-! ## Single rows -/

def modifyTurn (p : Projection) (turnId : Int) (f : TurnRow → TurnRow) : Projection :=
  { p with turns := p.turns.modify turnId f }

def openTurn (p : Projection) (first : StoredEvent) (prompt sidechain : Bool) : Projection :=
  { p with
    turns := p.turns.insert first.byteOffset (newTurn p.state first prompt sidechain)
    state := p.state.openTurn first prompt sidechain }

/-- Store an operation, with its file touches when its input is new. -/
def storeOp (p : Projection) (op : OpRow) (inputChanged : Bool) : Projection :=
  { p with
    ops := p.ops.insert op.key op
    touches :=
      if inputChanged then
        p.touches.insert op.key
          ((extractFileTouches op.pair context.fileContext).take touchesPerOperation)
      else p.touches }

def noteOwnerError (p : Projection) (op : OpRow) : Projection :=
  p.modifyTurn op.turnId (TurnRow.noteError op.isError)

def addLinks (p : Projection) (links : Finset ChildLink) : Projection :=
  { p with links := p.links ∪ links }

/-! ## Calls and results -/

def operationCount (p : Projection) (turnId : Int) : Nat :=
  (p.turns[turnId]?.map TurnRow.operationCount).getD 0

def addCall (turnId : Int) (event : StoredEvent) (p : Projection) (tool : ToolUseView) :
    Projection :=
  (p.modifyTurn turnId (TurnRow.countCall tool)).storeOp context
    (newOp turnId (p.operationCount turnId) tool event) true

/-- The latest call with this id before an offset. -/
def latestOp (p : Projection) (pairId : String) (before : Int) : Option OpRow :=
  maxByKey OpRow.callOffset (p.opsByPair pairId before)

/-- The calls still running in `cell`, apart from the `wait` itself. -/
def runningOps (p : Projection) (cell : String) (wait : OpKey) : List OpRow :=
  (Table.rows p.ops).filter fun op => op.runningCell = some cell ∧ op.key ≠ wait

def closeCells (p : Projection) (wait : OpRow) (block : Block) (event : StoredEvent) : Projection :=
  match waitedCell wait block with
  | none => p
  | some cell =>
      (p.runningOps cell wait.key).foldl
        (fun p op => p.storeOp context (closeCell event op) false) p

/-- A result on the call it belongs to. -/
def landResult (p : Projection) (op : OpRow) (block : Block) (event : StoredEvent) : Projection :=
  let op := setResult op block event
  ((p.closeCells context op block event).storeOp context op false).noteOwnerError op

def addResult (turnId : Int) (event : StoredEvent) (p : Projection) (block : Block) : Projection :=
  let p := if block.isError.getD false then p.modifyTurn turnId (TurnRow.noteError true) else p
  match block.toolId.bind fun pairId => p.latestOp pairId event.byteOffset with
  | none => p
  | some op => p.landResult context op block event

/-! ## Runtime evidence -/

/-- The calls with the evidence's id, oldest first. -/
def exactOwners (p : Projection) (event : StoredEvent) (evidence : Json) : List OpRow :=
  match evidenceId evidence with
  | some id => (p.opsByPair id event.byteOffset).insertionSort fun a b =>
      a.callOffset ≤ b.callOffset
  | none => []

/-- The calls a piece of evidence may belong to. -/
def owners (p : Projection) (event : StoredEvent) (evidence : Json) : List OpRow :=
  if (p.exactOwners event evidence).isEmpty then
    (Table.rows p.ops).filter (enclosing event evidence)
  else p.exactOwners event evidence

def foldInto (p : Projection) (event : StoredEvent) (evidence : Json × Bool) (op : OpRow) :
    Projection :=
  let op := foldEvidence event evidence.1 evidence.2 op
  (p.storeOp context op true).noteOwnerError op

def addEvidence (event : StoredEvent) (acc : Projection × StoredEvent) (evidence : Json × Bool) :
    Projection × StoredEvent :=
  match acc.1.owners event evidence.1 with
  | [op] => (acc.1.foldInto context event evidence op, { acc.2 with blocks := [] })
  | _ => (acc.1, markUncorrelated acc.2 evidence.1)

def correlate (p : Projection) (event : StoredEvent) : Projection × StoredEvent :=
  (evidenceIn event).foldl (addEvidence context event) (p, event)

/-! ## Usage -/

/-- The turn a Claude response is charged to: the one of its earlier receipt, if there is one. -/
def usageOwner (p : Projection) (turnId : Int) (messageId : String) : Int :=
  match p.usage[messageId]? with
  | some prior => if p.turns[prior.turnId]?.isSome then prior.turnId else turnId
  | none => turnId

/-- Take back what an earlier receipt of the response added to its turn. -/
def withdraw (p : Projection) (owner : Int) (messageId : String) : Projection :=
  match p.usage[messageId]? with
  | some prior =>
      if prior.turnId = owner then
        p.modifyTurn owner (TurnRow.subTokens (prior.inputTokens, prior.outputTokens))
      else p
  | none => p

def charge (p : Projection) (turnId : Int) (messageId : String) (tokens : Int × Int) : Projection :=
  let owner := p.usageOwner turnId messageId
  let p := (p.withdraw owner messageId).modifyTurn owner (TurnRow.addTokens tokens)
  { p with usage := p.usage.insert messageId ⟨owner, tokens.1, tokens.2⟩ }

def setTotals (p : Projection) (turnId : Int) (totals : Int × Int) : Projection :=
  let p := p.modifyTurn turnId (TurnRow.setTotals totals)
  { p with state := { p.state with
      codexInputTotal := some totals.1
      codexOutputTotal := some totals.2 } }

def addUsage (p : Projection) (turnId : Int) (event : StoredEvent) : Projection :=
  match event.usageJson with
  | none => p
  | some usage =>
      if event.agent = "codex" then
        p.setTotals turnId (token usage "input_tokens", token usage "output_tokens")
      else
        match event.usageMessageId with
        | none => p.modifyTurn turnId (TurnRow.addTokens (claudeTokens usage))
        | some messageId => p.charge turnId messageId (claudeTokens usage)

/-! ## Events -/

def countEvent (p : Projection) (turnId : Int) (event : StoredEvent) : Projection :=
  let p := p.modifyTurn turnId (TurnRow.countEvent event)
  { p with state := p.state.countEvent event }

def addReply (p : Projection) (turnId : Int) (event : StoredEvent) : Projection :=
  if isAssistantEvent event then
    ((toolUsesIn event).foldl (addCall context turnId event) p).modifyTurn turnId
      (TurnRow.noteReply event)
  else p

def addResults (p : Projection) (turnId : Int) (event : StoredEvent) : Projection :=
  if isToolResultEvent event then
    (event.blocks.filter fun block => block.kind = .toolResult).foldl
      (addResult context turnId event) p
  else p

def addItem (p : Projection) (turnId : Int) (event : StoredEvent) : Projection :=
  match visibleItem event with
  | some item =>
      let new := [((turnId, event.byteOffset), item)]
      { p with items := Table.mergeList (fun old _ => old) p.items new }
  | none => p

/-- An event lands in a turn: its count, its calls, its results, its item and its usage. -/
def append (p : Projection) (turnId : Int) (event : StoredEvent) : Projection :=
  ((((p.countEvent turnId event).addReply context turnId event).addResults context turnId
    event).addItem turnId event).addUsage turnId event

/-- Whether the event is a prompt that is already there. -/
def seen (p : Projection) (event : StoredEvent) : Bool :=
  isRealUserPrompt event && event.eventUuid.any p.promptSeen

/-- Where an event goes. -/
inductive Place
  | nowhere
  /-- An open turn. -/
  | into (turnId : Int)
  /-- A turn of its own. -/
  | fresh

/-- A prompt opens a turn; any other event goes to the open turn of its line, and opens one
when there is none, unless it is bookkeeping. -/
def place (state : SessionState) (event : StoredEvent) : Place :=
  if isRealUserPrompt event then .fresh
  else
    match if event.isSidechain then state.currentSidechain else state.currentMain with
    | some turnId => .into turnId
    | none => if isBookkeepingEvent event then .nowhere else .fresh

/-- A new turn for the event, linked to its spawning call when it is a sidechain. -/
def openFor (p : Projection) (event : StoredEvent) : Projection :=
  let p := p.openTurn event (isRealUserPrompt event) event.isSidechain
  if event.isSidechain then
    p.addLinks (sidechainLinks context.sessionUuid context.childOf event.byteOffset event)
  else p

/-- Put the event where it goes. A prompt is its turn's first event. -/
def settle (p : Projection) (event : StoredEvent) : Projection :=
  match place p.state event with
  | .nowhere => p
  | .into turnId => p.append context turnId event
  | .fresh =>
      if isRealUserPrompt event then p.openFor context event
      else (p.openFor context event).append context event.byteOffset event

/-- The cursor moves over the event. -/
def advance (p : Projection) (event : StoredEvent) : Projection :=
  { p with state := p.state.advance event }

/-- **One event.** -/
def step (p : Projection) (event : StoredEvent) : Projection :=
  let p := p.advance event
  if event.subtype = some "inherited_history" then p
  else
    let (p, event) := p.correlate context event
    let p := p.addLinks
      (eventLinks context.parseUuid context.sessionUuid context.childOf event)
    if p.seen event then p else p.settle context event

end Projection

end Sulion.Timeline
