import Sulion.Lib.LastMax
import Sulion.Timeline.Projection

set_option autoImplicit false

/-! # The incremental reducer

The reducer consumes one session's events in byte-offset order. Rows it needs are loaded on
demand from the stored projection and kept for the batch; `intoChanges` hands over what
changed. `apply` fails (`none`) where the source bails.
-/

namespace Sulion.Timeline

open Sulion.Rust

/-- What is fixed for a session's reducer; `parseUuid` is `Uuid::parse_str`. -/
structure Context where
  sessionUuid : Uuid
  fileContext : Option FileTouchContext
  /-- Set for a Claude subagent transcript: the parent session its events link back to. -/
  childOf : Option Uuid
  parseUuid : String → Option Uuid

structure Reducer where
  backend : Projection
  context : Context
  state : SessionState
  /-- Cursor when the batch began: rows at or before it are persisted. -/
  batchStart : Int
  turns : Table Int TurnRow := ∅
  dirtyTurns : Finset Int := ∅
  items : List (Int × Int × TimelineChunk) := []
  ops : Table OpKey OpRow := ∅
  newOps : Finset OpKey := ∅
  updatedOps : Finset OpKey := ∅
  inputChanged : Finset OpKey := ∅
  opsByPair : Table String (Finset OpKey) := ∅
  queriedPairs : Finset String := ∅
  prompts : Finset String := ∅
  usage : Table String MessageUsage := ∅
  dirtyUsage : Finset String := ∅
  links : Finset ChildLink := ∅

namespace Reducer

def new (backend : Projection) (context : Context) : Reducer :=
  { backend := backend
    context := context
    state := backend.state
    batchStart := backend.state.projectedThrough }

/-! ## Turns -/

def loadTurn (r : Reducer) (turnId : Int) : Reducer × Bool :=
  if r.turns[turnId]?.isSome then (r, true)
  else
    match r.backend.turn turnId with
    | some row => ({ r with turns := r.turns.insert turnId row }, true)
    | none => (r, false)

/-- `turn_mut`; every caller has loaded the turn. -/
def turnMut (r : Reducer) (turnId : Int) (f : TurnRow → TurnRow) : Reducer :=
  { r with
    dirtyTurns := insert turnId r.dirtyTurns
    turns := r.turns.modify turnId f }

/-- `create_turn`, with the pointer to the open turn that its callers move. -/
def createTurn (r : Reducer) (first : StoredEvent) (prompt sidechain : Bool) : Reducer :=
  { r with
    turns := r.turns.insert first.byteOffset (newTurn r.state first prompt sidechain)
    dirtyTurns := insert first.byteOffset r.dirtyTurns
    state := r.state.openTurn first prompt sidechain }

/-! ## Operations -/

/-- `ops_by_pair.entry(op.pair_id).or_default().insert(key)`. -/
def indexOp (opsByPair : Table String (Finset OpKey)) (op : OpRow) : Table String (Finset OpKey) :=
  opsByPair.insert op.pairId (insert op.key (opsByPair[op.pairId]?.getD ∅))

def rememberOp (r : Reducer) (op : OpRow) : Reducer :=
  if r.ops[op.key]?.isSome then r
  else
    { r with
      opsByPair := indexOp r.opsByPair op
      ops := r.ops.insert op.key op }

/-- Store a changed operation: a new call, or an update to a stored one. -/
def putOp (r : Reducer) (op : OpRow) (inputChanged : Bool) : Reducer :=
  { r with
    opsByPair := indexOp r.opsByPair op
    ops := r.ops.insert op.key op
    updatedOps := if op.key ∈ r.newOps then r.updatedOps else insert op.key r.updatedOps
    inputChanged :=
      if op.key ∈ r.newOps ∨ inputChanged = false then r.inputChanged
      else insert op.key r.inputChanged }

/-- The cached operations with `pairId` called before `before`, in key order. -/
def localOps (r : Reducer) (pairId : String) (before : Int) : List OpRow :=
  (Table.rows (r.ops.filter fun key _ => decide (key ∈ r.opsByPair[pairId]?.getD ∅))).filter
    fun op => op.callOffset < before

/-- Operations with `pairId` called before `before`, oldest first. -/
def opsForPair (r : Reducer) (pairId : String) (before : Int) : Reducer × List OpRow :=
  let r :=
    if pairId ∈ r.queriedPairs then r
    else
      let r := (r.backend.opsByPair pairId before).foldl rememberOp r
      { r with queriedPairs := insert pairId r.queriedPairs }
  (r, (r.localOps pairId before).insertionSort fun a b => a.callOffset ≤ b.callOffset)

/-- The latest call with this id before the result, in any turn. -/
def latestOpForPair (r : Reducer) (pairId : String) (before : Int) : Reducer × Option OpRow :=
  let found := maxByKey OpRow.callOffset (r.localOps pairId before)
  -- A call made in this batch is newer than anything persisted.
  if found.any fun op => decide (r.batchStart < op.callOffset) then (r, found)
  else
    let (r, all) := r.opsForPair pairId before
    (r, all.getLast?)

/-- One call of an assistant event. -/
def applyCall (turnId : Int) (event : StoredEvent) (r : Reducer) (tool : ToolUseView) : Reducer :=
  let operationOrd := (r.turns[turnId]?.map TurnRow.operationCount).getD 0
  let r := r.turnMut turnId (TurnRow.countCall tool)
  let op := newOp turnId operationOrd tool event
  { r with newOps := insert op.key r.newOps }.putOp op true

def applyCalls (r : Reducer) (turnId : Int) (event : StoredEvent) : Reducer :=
  (toolUsesIn event).foldl (applyCall turnId event) r

/-- A completed `wait` ends the calls still running in the cell it waited on. -/
def closeWaitedCells (r : Reducer) (wait : OpRow) (block : Block) (event : StoredEvent) : Reducer :=
  match waitedCell wait block with
  | none => r
  | some cell =>
      let r := (r.backend.opsByRunningCell cell).foldl rememberOp r
      let running := (Table.rows r.ops).filter fun op =>
        op.runningCell = some cell ∧ op.key ≠ wait.key
      running.foldl (fun r op => r.putOp (closeCell event op) false) r

/-- Note on its turn that a call failed, when the turn is there. -/
def noteOwnerError (r : Reducer) (op : OpRow) : Reducer :=
  let (r, loaded) := r.loadTurn op.turnId
  if loaded then r.turnMut op.turnId (TurnRow.noteError op.isError) else r

/-- One tool-result block. -/
def applyResult (turnId : Int) (event : StoredEvent) (r : Reducer) (block : Block) : Reducer :=
  let r :=
    if block.isError.getD false then r.turnMut turnId (TurnRow.noteError true) else r
  match block.toolId with
  | none => r
  | some pairId =>
      let (r, found) := r.latestOpForPair pairId event.byteOffset
      match found with
      | none => r
      | some op =>
          let op := setResult op block event
          let r := r.closeWaitedCells op block event
          (r.putOp op false).noteOwnerError op

def applyResults (r : Reducer) (turnId : Int) (event : StoredEvent) : Reducer :=
  (event.blocks.filter fun block => block.kind = .toolResult).foldl (applyResult turnId event) r

/-! ## Runtime evidence -/

/-- The calls one piece of evidence may belong to: those with its id, else the `exec` calls
whose window encloses it. -/
def evidenceOwners (r : Reducer) (event : StoredEvent) (evidence : Json) : Reducer × List OpRow :=
  let (r, exact) :=
    match evidenceId evidence with
    | some id => r.opsForPair id event.byteOffset
    | none => (r, [])
  if exact.isEmpty then
    let r := (r.backend.execCandidates event.byteOffset (evidenceStart evidence)).foldl rememberOp r
    (r, (Table.rows r.ops).filter (enclosing event evidence))
  else (r, exact)

/-- One piece of runtime evidence: it folds into its single owner, or stays on its event. -/
def applyEvidence (event : StoredEvent) (acc : Reducer × StoredEvent) (evidence : Json × Bool) :
    Reducer × StoredEvent :=
  let (r, owners) := acc.1.evidenceOwners event evidence.1
  match owners with
  | [op] =>
      let op := foldEvidence event evidence.1 evidence.2 op
      ((r.putOp op true).noteOwnerError op, { acc.2 with blocks := [] })
  | _ => (r, markUncorrelated acc.2 evidence.1)

/-- `correlate_runtime`. -/
def correlateRuntime (r : Reducer) (event : StoredEvent) : Reducer × StoredEvent :=
  (evidenceIn event).foldl (applyEvidence event) (r, event)

/-! ## Usage -/

/-- A Claude response is billed once: at the turn of its first receipt, with its latest
receipt's usage. -/
def charge (r : Reducer) (turnId : Int) (messageId : String) (tokens : Int × Int) : Reducer :=
  let prior := r.usage[messageId]?.or (r.backend.messageUsage messageId)
  let (r, owned) :=
    match prior with
    | some prior => r.loadTurn prior.turnId
    | none => (r, false)
  let owner := match prior with
    | some prior => if owned then prior.turnId else turnId
    | none => turnId
  let r :=
    match prior with
    | some prior =>
        if prior.turnId = owner then
          r.turnMut owner (TurnRow.subTokens (prior.inputTokens, prior.outputTokens))
        else r
    | none => r
  let r := r.turnMut owner (TurnRow.addTokens tokens)
  { r with
    usage := r.usage.insert messageId ⟨owner, tokens.1, tokens.2⟩
    dirtyUsage := insert messageId r.dirtyUsage }

/-- `apply_usage`: Claude bills responses; Codex reports cumulative totals. -/
def applyUsage (r : Reducer) (turnId : Int) (event : StoredEvent) : Reducer :=
  match event.usageJson with
  | none => r
  | some usage =>
      if event.agent = "codex" then
        let totals := (token usage "input_tokens", token usage "output_tokens")
        let r := r.turnMut turnId (TurnRow.setTotals totals)
        { r with
          state := { r.state with
            codexInputTotal := some totals.1
            codexOutputTotal := some totals.2 } }
      else
        match event.usageMessageId with
        | none => r.turnMut turnId (TurnRow.addTokens (claudeTokens usage))
        | some messageId => r.charge turnId messageId (claudeTokens usage)

/-! ## Events -/

def recordLinks (r : Reducer) (event : StoredEvent) : Reducer :=
  { r with
    links := r.links ∪
      eventLinks r.context.parseUuid r.context.sessionUuid r.context.childOf event }

def linkSidechainTurn (r : Reducer) (turnId : Int) (seed : StoredEvent) : Reducer :=
  { r with links := r.links ∪ sidechainLinks r.context.sessionUuid r.context.childOf turnId seed }

/-- The calls and the reply of an assistant event. -/
def applyReply (r : Reducer) (turnId : Int) (event : StoredEvent) : Reducer :=
  if isAssistantEvent event then (r.applyCalls turnId event).turnMut turnId
    (TurnRow.noteReply event)
  else r

def pushItem (r : Reducer) (turnId : Int) (event : StoredEvent) : Reducer :=
  match visibleItem event with
  | some item => { r with items := r.items ++ [(turnId, event.byteOffset, item)] }
  | none => r

/-- `append_event`; it bails on a missing turn. -/
def appendEvent (r : Reducer) (turnId : Int) (event : StoredEvent) : Option Reducer :=
  let (r, loaded) := r.loadTurn turnId
  if !loaded then none
  else
    let r := r.turnMut turnId (TurnRow.countEvent event)
    let r := { r with state := r.state.countEvent event }
    let r := r.applyReply turnId event
    let r := if isToolResultEvent event then r.applyResults turnId event else r
    let r := r.pushItem turnId event
    some (r.applyUsage turnId event)

/-- Remember a prompt by its id; `none` when it was seen before. -/
def notePrompt (r : Reducer) (event : StoredEvent) : Option Reducer :=
  if isRealUserPrompt event then
    match event.eventUuid with
    | some id =>
        if decide (id ∈ r.prompts) || r.backend.promptSeen id then none
        else some { r with prompts := insert id r.prompts }
    | none => some r
  else some r

/-- The turn an event goes to, which a prompt or a first event opens. -/
def routeEvent (r : Reducer) (event : StoredEvent) : Option Reducer :=
  let isPrompt := isRealUserPrompt event
  if event.isSidechain then
    match if isPrompt then none else r.state.currentSidechain with
    | some turnId => r.appendEvent turnId event
    | none =>
        if isBookkeepingEvent event then some r
        else
          let r := r.createTurn event isPrompt true
          let r := r.linkSidechainTurn event.byteOffset event
          if isPrompt then some r else r.appendEvent event.byteOffset event
  else if isPrompt then some (r.createTurn event true false)
  else
    match r.state.currentMain with
    | some turnId => r.appendEvent turnId event
    | none =>
        -- Bookkeeping before the first turn belongs to no turn.
        if isBookkeepingEvent event then some r
        else (r.createTurn event false false).appendEvent event.byteOffset event

/-- Apply one event. Events must arrive in byte-offset order. -/
def apply (r : Reducer) (event : StoredEvent) : Option Reducer :=
  let r := { r with state := r.state.advance event }
  if event.subtype = some "inherited_history" then some r
  else
    let (r, event) := r.correlateRuntime event
    let r := r.recordLinks event
    match r.notePrompt event with
    | none => some r
    | some r => r.routeEvent event

/-- The rows of the batch that have to be persisted. -/
def intoChanges (r : Reducer) : Changes :=
  { state := r.state
    turns := Table.rows (r.turns.filter fun turnId _ => decide (turnId ∈ r.dirtyTurns))
    items := r.items
    newOps := Table.rows (r.ops.filter fun key _ => decide (key ∈ r.newOps))
    updatedOps :=
      (Table.rows (r.ops.filter fun key _ => decide (key ∈ r.updatedOps ∧ key ∉ r.newOps))).map
        fun op => (op, decide (op.key ∈ r.inputChanged))
    touches :=
      (Table.rows (r.ops.filter fun key _ => decide (key ∈ r.newOps ∨ key ∈ r.inputChanged))).map
        fun op => (op.key, extractFileTouches op.pair r.context.fileContext)
    usage := (r.usage.filter fun messageId _ => decide (messageId ∈ r.dirtyUsage)).toList
    links := r.links }

end Reducer

/-! ## Batches -/

/-- One batch: a fresh reducer over the stored projection, and what it changed persisted. A
batch that fails commits nothing. -/
def projectBatch (context : Context) (db : Projection) (events : List StoredEvent) :
    Option Projection :=
  (events.foldlM Reducer.apply (Reducer.new db context)).map fun r => persist db r.intoChanges

/-- One batch after the other. -/
def projectBatches (context : Context) (db : Projection) (batches : List (List StoredEvent)) :
    Option Projection :=
  batches.foldlM (projectBatch context) db

end Sulion.Timeline
