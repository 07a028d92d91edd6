import Sulion.Ingest.Canonical

set_option autoImplicit false

/-! # Codex lineage

The session, the parent and the turn a Codex record belongs to, carried from line to line in a
`CodexSessionContext`; and `parse_canonical_event`, which adds them to the parsed record.
-/

namespace Sulion.Ingest

open Rust Timeline

/-- `CodexSessionContext`. -/
structure CodexSessionContext where
  sessionId : String
  parentSessionId : Option String
  currentTurnId : Option String
  historyStartOrdinal : Option Nat
  deriving DecidableEq, Repr

/-- `CodexSessionContext::new`. -/
def CodexSessionContext.new (session : Uuid) : CodexSessionContext where
  sessionId := uuidText session
  parentSessionId := none
  currentTurnId := none
  historyStartOrdinal := none

/-- A `session_meta` that names another session. -/
def foreignMeta (sessionId : String) (value : Json) : Bool :=
  codexRecordKind value == some "session_meta" &&
    (value.stringAt ["payload", "id"]).any (· != sessionId)

/-- An ordinal behind the start of a session's own history. -/
def beforeStart (start : Option Nat) (value : Json) : Bool :=
  match start, (value.get "ordinal").bind Json.asU64 with
  | some start, some ordinal => decide (0 < ordinal ∧ ordinal < start)
  | _, _ => false

/-- `is_inherited`. -/
def CodexSessionContext.isInherited (ctx : CodexSessionContext) (value : Json) : Bool :=
  foreignMeta ctx.sessionId value || beforeStart ctx.historyStartOrdinal value

/-- `codex_parent_session_string`. -/
def codexParentSession (value : Json) : Option String :=
  let payload := (value.get "payload").getD .null
  (payload.stringAt ["forked_from_id"]).or
    (payload.stringAt ["source", "subagent", "thread_spawn", "parent_thread_id"])

/-- `update_codex_context`. -/
def updateCodexContext (session : Uuid) (ctx : CodexSessionContext) (value : Json) :
    CodexSessionContext :=
  if ctx.isInherited value then ctx
  else
    let payload := (value.get "payload").getD .null
    match (codexRecordKind value).getD "" with
    | "session_meta" =>
        { ctx with
          sessionId := (payload.stringAt ["id"]).getD (uuidText session)
          parentSessionId := codexParentSession value
          historyStartOrdinal := (payload.get "subagent_history_start_ordinal").bind Json.asU64 }
    | "turn_context" => { ctx with currentTurnId := payload.stringAt ["turn_id"] }
    | "event_msg" =>
        if payload.strAt "type" = some "task_started" then
          { ctx with currentTurnId := payload.stringAt ["turn_id"] }
        else ctx
    | _ => ctx

/-- A record of another session's history: nothing of it is shown. -/
def inheritedEvent (parsed : CanonicalEvent) (syntheticId : String) (isSidechain : Bool) :
    CanonicalEvent :=
  { parsed with
    eventUuid := some syntheticId
    parentEventUuid := none
    relatedToolUseId := none
    isSidechain := isSidechain
    isMeta := true
    speaker := .system
    contentKind := .none
    subtype := some inheritedHistory
    blocks := [] }

/-- The links of a `response_item`. -/
def enrichResponseItem (parsed : CanonicalEvent) (payload : Json) (byteOffset : Int)
    (syntheticId parent : String) (isSidechain : Bool) : CanonicalEvent :=
  { parsed with
    parentEventUuid := some parent
    isSidechain := isSidechain
    eventUuid := some <|
      match parsed.subtype.getD "" with
      | "agent_message" => (payload.strAt "id").getD syntheticId
      | "function_call" | "custom_tool_call" =>
          (parsed.blocks.findSome? Block.toolId).getD syntheticId
      | "function_call_output" | "custom_tool_call_output" =>
          (parsed.relatedToolUseId.map fun id => id ++ ":output:" ++ toString byteOffset).getD
            syntheticId
      | _ => syntheticId }

/-- The links of an `event_msg`; `parent` is the current turn, or else the session. -/
def enrichEventMsg (parsed : CanonicalEvent) (payload : Json)
    (syntheticId sessionId parent : String)
    (isSidechain : Bool) : CanonicalEvent :=
  let parsed := { parsed with
    relatedToolUseId := parsed.relatedToolUseId.or (payload.stringAt ["call_id"])
    isSidechain := isSidechain }
  let other := { parsed with
    eventUuid := some syntheticId
    parentEventUuid := some ((payload.stringAt ["turn_id"]).getD parent) }
  match parsed.subtype.getD "" with
  | "item_completed" =>
      if payload.stringAt ["item", "type"] = some "SubAgentActivity" ∧
          payload.stringAt ["item", "kind"] = some "started" then
        { parsed with
          eventUuid := some ((payload.stringAt ["item", "agent_thread_id"]).getD syntheticId)
          relatedToolUseId := payload.stringAt ["item", "id"]
          parentEventUuid := some parent
          isSidechain := false }
      else other
  | "task_started" =>
      { parsed with
        eventUuid := some ((payload.stringAt ["turn_id"]).getD syntheticId)
        parentEventUuid := some sessionId }
  | "collab_agent_spawn_end" =>
      { parsed with
        eventUuid := some ((payload.stringAt ["new_thread_id"]).getD syntheticId)
        parentEventUuid := some parent
        isSidechain := false }
  | _ => other

/-- `enrich_codex_lineage`. -/
def enrichCodexLineage (parsed : CanonicalEvent) (value : Json) (session : Uuid) (byteOffset : Int)
    (ctx : Option CodexSessionContext) : CanonicalEvent :=
  let payload := (value.get "payload").getD .null
  let sessionId := (ctx.map CodexSessionContext.sessionId).getD (uuidText session)
  let isSidechain := (ctx.bind CodexSessionContext.parentSessionId).isSome
  let parent := (ctx.bind CodexSessionContext.currentTurnId).getD sessionId
  let syntheticId := "codex:" ++ uuidText session ++ ":" ++ toString byteOffset
  if ctx.any fun ctx => ctx.isInherited value then inheritedEvent parsed syntheticId isSidechain
  else
    match (codexRecordKind value).getD "" with
    | "session_meta" =>
        { parsed with
          eventUuid := some ((payload.stringAt ["id"]).getD sessionId)
          parentEventUuid := codexParentSession value
          isSidechain := (codexParentSession value).isSome }
    | "turn_context" =>
        { parsed with
          eventUuid := some ((payload.stringAt ["turn_id"]).getD syntheticId)
          parentEventUuid := some sessionId
          isSidechain := isSidechain }
    | "response_item" =>
        enrichResponseItem parsed payload byteOffset syntheticId parent isSidechain
    | "event_msg" => enrichEventMsg parsed payload syntheticId sessionId parent isSidechain
    | _ => parsed

/-- `parse_canonical_event`. -/
def parseCanonicalEvent (h : Helpers) (agent : String) (value : Json) (session : Uuid)
    (byteOffset : Int) (ctx : Option CodexSessionContext) : CanonicalEvent :=
  if agent = "codex" then enrichCodexLineage (codexParse h value) value session byteOffset ctx
  else claudeParse h value

end Sulion.Ingest
