import Sulion.Activity
import Sulion.Timeline.Events

set_option autoImplicit false

/-! # Canonical events

`CanonicalEvent` and the two parsers that produce it from a transcript record. The canonical
form of tool calls and results, the normalization of a user's text and the text of a JSON value
are functions that the parsers apply and never look into; they are the fields of `Helpers`.
-/

namespace Sulion.Ingest

open Rust Timeline

inductive Speaker
  | user
  | assistant
  | system
  | summary
  | other
  deriving DecidableEq, Repr

def Speaker.asStr : Speaker → String
  | user => "user"
  | assistant => "assistant"
  | system => "system"
  | summary => "summary"
  | other => "other"

inductive ContentKind
  | none
  | text
  | thinking
  | toolUse
  | toolResult
  | mixed
  deriving DecidableEq, Repr

def ContentKind.asStr : ContentKind → String
  | none => "none"
  | text => "text"
  | thinking => "thinking"
  | toolUse => "tool_use"
  | toolResult => "tool_result"
  | mixed => "mixed"

structure CanonicalEvent where
  agent : String
  speaker : Speaker
  contentKind : ContentKind
  eventUuid : Option String
  parentEventUuid : Option String
  relatedToolUseId : Option String
  isSidechain : Bool
  isMeta : Bool
  subtype : Option String
  blocks : List Block

/-- The functions the parsers apply to parts of a record. -/
structure Helpers where
  /-- `canonicalize_tool_use`. -/
  canonicalizeToolUse : String → Json → String × Json
  /-- `canonicalize_tool_result_payload`. -/
  canonicalizeToolResultPayload : Json → Json
  /-- `normalize_user_text`. -/
  normalizeUserText : String → String
  /-- `Value::to_string`. -/
  jsonText : Json → String
  /-- `serde_json::from_str`. -/
  fromStr : String → Option Json

/-- Helpers that leave tool calls, results and texts as they are. -/
def plainHelpers : Helpers where
  canonicalizeToolUse name input := (name, input)
  canonicalizeToolResultPayload payload := payload
  normalizeUserText text := text
  jsonText _ := "json"
  fromStr _ := none

/-! ## Blocks -/

def textBlock (ord : Int) (text : String) : Block :=
  { ord := ord, kind := .text, text := some text }

def thinkingBlock (ord : Int) (text : String) : Block :=
  { ord := ord, kind := .thinking, text := some text }

def toolUseBlock (h : Helpers) (ord : Int) (toolId name : String) (input : Json) : Block :=
  let (canonicalName, canonicalInput) := h.canonicalizeToolUse name input
  { ord := ord, kind := .toolUse, toolId := some toolId, toolName := some name,
    toolNameCanonical := some canonicalName, toolInput := some canonicalInput }

def toolResultBlock (ord : Int) (toolId : String) (text : Option String) (isError : Bool)
    (toolOutput : Option Json) : Block :=
  { ord := ord, kind := .toolResult, toolId := some toolId, text := text, isError := some isError,
    toolOutput := toolOutput }

def unknownBlock (ord : Int) (raw : Json) : Block :=
  { ord := ord, kind := .unknown, raw := some raw }

/-- `content_kind_of`. -/
def contentKindOf (blocks : List Block) : ContentKind :=
  let has (kind : BlockKind) : Bool := blocks.any fun block => block.kind == kind
  match has .text, has .thinking, has .toolUse, has .toolResult with
  | false, false, false, false => .none
  | true, false, false, false => .text
  | false, true, false, false => .thinking
  | false, false, true, false => .toolUse
  | false, false, false, true => .toolResult
  | _, _, _, _ => .mixed

/-- The parts a block adds to `search_text`. -/
def searchParts (h : Helpers) (block : Block) : List String :=
  let filled (text : Option String) : List String :=
    (text.filter fun text => !(trim text).isEmpty).toList
  let serialized (value : Option Json) : List String :=
    ((value.map h.jsonText).filter fun text => text != "null" && !(trim text).isEmpty).toList
  match block.kind with
  | .text | .thinking | .toolResult => filled block.text ++ serialized block.toolOutput
  | .toolUse => block.toolNameCanonical.toList ++ filled block.toolName ++
      serialized block.toolInput
  | .unknown => filled (block.raw.map h.jsonText)

/-- `search_text`. -/
def CanonicalEvent.searchText (h : Helpers) (event : CanonicalEvent) : String :=
  "\n".intercalate (event.speaker.asStr ::
    (event.subtype.filter fun subtype => !(trim subtype).isEmpty).toList ++
      event.blocks.flatMap (searchParts h))

/-! ## Claude records -/

/-- The text of a `tool_result`: a string, the joined texts of its parts, or the value itself. -/
def toolResultText (h : Helpers) : Option Json → Option String
  | some (.str s) => some s
  | some (.arr parts) =>
      let buf := parts.foldl (fun buf part =>
        match part.strAt "text" with
        | some s => (if buf.isEmpty then buf else buf ++ "\n") ++ s
        | none => buf) ""
      if buf.isEmpty then none else some buf
  | some other => some (h.jsonText other)
  | none => none

/-- `parse_blocks`: the result payload of the record belongs to its first result block. -/
def parseBlocks (h : Helpers) (payload : Option Json) : Nat → Bool → List Json → List Block
  | _, _, [] => []
  | i, attached, raw :: rest =>
      let text (key : String) : String := (raw.strAt key).getD ""
      match raw.strAt "type" with
      | some "text" => textBlock i (text "text") :: parseBlocks h payload (i + 1) attached rest
      | some "thinking" =>
          thinkingBlock i (text "thinking") :: parseBlocks h payload (i + 1) attached rest
      | some "tool_use" =>
          toolUseBlock h i (text "id") (text "name") ((raw.get "input").getD .null) ::
            parseBlocks h payload (i + 1) attached rest
      | some "tool_result" =>
          toolResultBlock i (text "tool_use_id") (toolResultText h (raw.get "content"))
              (((raw.get "is_error").bind Json.asBool).getD false)
              (if attached then none else payload) ::
            parseBlocks h payload (i + 1) (attached || payload.isSome) rest
      | _ => unknownBlock i raw :: parseBlocks h payload (i + 1) attached rest

/-- `string_field`. -/
def stringField (value : Json) (keys : List String) : Option String := keys.findSome? value.strAt

/-- `bool_field`. -/
def boolField (value : Json) (keys : List String) : Option Bool :=
  keys.findSome? fun key => (value.get key).bind Json.asBool

/-- A prompt that was queued by hand. -/
def queuedHuman (value : Json) : Bool :=
  (Activity.claudeCompactionSubtype value).isNone && value.strAt "type" == some "attachment" &&
    (value.get "attachment").any fun a =>
      a.strAt "type" == some "queued_command" && a.strAt "commandMode" == some "prompt" &&
        (a.stringAt ["origin", "kind"] == some "human" ||
          (a.get "humanTurn").bind Json.asBool == some true)

def claudeSpeaker (value : Json) : Speaker :=
  if (Activity.claudeCompactionSubtype value).isSome then .system
  else
    match value.strAt "type" with
    | some "attachment" => if queuedHuman value then .user else .system
    | some "user" => .user
    | some "assistant" => .assistant
    | some "system" => .system
    | some "summary" => .summary
    | _ => .other

/-- The blocks of a Claude record, before a user's texts are normalized. -/
def claudeBlocks (h : Helpers) (value : Json) : List Block :=
  let kind := (value.strAt "type").getD ""
  let content :=
    if queuedHuman value then (value.get "attachment").bind (·.get "prompt")
    else ((value.get "message").bind (·.get "content")).or
      ((Activity.claudeCompactionSubtype value).bind fun _ => value.get "content")
  let payload := ((value.get "toolUseResult").filter fun payload =>
    match payload with
    | .null => false
    | _ => true).map h.canonicalizeToolResultPayload
  let blocks :=
    match content with
    | some (.arr arr) => parseBlocks h payload 0 false arr
    | some (.str s) => [textBlock 0 s]
    | _ => []
  let blocks :=
    if blocks.isEmpty && kind == "summary" then
      ((value.strAt "summary").map (textBlock 0)).toList
    else blocks
  if kind == "attachment" && !queuedHuman value then
    let rendered := ((value.get "rendered").bind Json.asArray).getD []
    blocks ++ (rendered.filterMap (·.strAt "content")).mapIdx fun i text => textBlock i text
  else blocks

def normalizeUserBlock (h : Helpers) (block : Block) : Block :=
  if block.kind = .text then { block with text := block.text.map h.normalizeUserText } else block

/-- `ClaudeParser::parse`. -/
def claudeParse (h : Helpers) (value : Json) : CanonicalEvent :=
  let attachment := value.get "attachment"
  let compaction := Activity.claudeCompactionSubtype value
  let queued := queuedHuman value
  let speaker := claudeSpeaker value
  let blocks :=
    if speaker = .user then (claudeBlocks h value).map (normalizeUserBlock h)
    else claudeBlocks h value
  { agent := "claude-code"
    speaker := speaker
    contentKind := contentKindOf blocks
    eventUuid := (if queued then attachment.bind fun a => stringField a ["source_uuid"]
      else none).or (stringField value ["uuid"])
    parentEventUuid := stringField value ["parentUuid", "parent_uuid"]
    relatedToolUseId := stringField value ["tool_use_id"]
    isSidechain := (boolField value ["isSidechain"]).getD false
    isMeta := if queued then false
      else compaction.isSome || value.strAt "type" == some "attachment" ||
        (boolField value ["isMeta"]).getD false
    subtype := if compaction.isSome then compaction
      else if queued then some "queued_user_prompt"
      else (stringField value ["subtype"]).or (attachment.bind fun a => stringField a ["type"])
    blocks := blocks }

/-! ## Codex records -/

/-- A Codex event with no identity links, outside any sidechain. -/
def codexEvent (speaker : Speaker) (subtype : String) (blocks : List Block) : CanonicalEvent where
  agent := "codex"
  speaker := speaker
  contentKind := contentKindOf blocks
  eventUuid := none
  parentEventUuid := none
  relatedToolUseId := none
  isSidechain := false
  isMeta := false
  subtype := some subtype
  blocks := blocks

mutual

/-- `value_to_text`. -/
def valueToText (h : Helpers) : Json → Option String
  | .null => none
  | .str s => some s
  | .arr parts =>
      let out := partTexts h parts
      if out.isEmpty then none else some ("\n".intercalate out)
  | .obj fields => some (((fields.lookup "text").bind Json.asStr).getD (h.jsonText (.obj fields)))
  | .bool b => some (h.jsonText (.bool b))
  | .int n => some (h.jsonText (.int n))
  | .float literal => some (h.jsonText (.float literal))

def partTexts (h : Helpers) : List Json → List String
  | [] => []
  | part :: rest =>
      match valueToText h part with
      | some text => if (trim text).isEmpty then partTexts h rest else text :: partTexts h rest
      | none => partTexts h rest

end

/-- `parse_json_string`. -/
def parseJsonString (h : Helpers) : Option Json → Json
  | some (.str raw) => (h.fromStr raw).getD (.str raw)
  | some value => value
  | none => .null

/-- `parse_codex_message_items`. -/
def codexMessageItems (items : List Json) : List Block :=
  items.mapIdx fun i item =>
    match item.strAt "type" with
    | some "input_text" | some "output_text" => textBlock i ((item.strAt "text").getD "")
    | _ => unknownBlock i item

/-- `codex_reasoning_text`. -/
def codexReasoningText (payload : Json) : Option String :=
  ((payload.get "summary").bind Json.asArray).bind fun summary =>
    let parts := summary.filterMap fun item =>
      match item with
      | .str s => if (trim s).isEmpty then none else some s
      | other => (other.strAt "text").filter fun s => !(trim s).isEmpty
    if parts.isEmpty then none else some ("\n".intercalate parts)

/-- The blocks of an `agent_message`. -/
def agentMessageBlocks (payload : Json) : List Block :=
  let author := (payload.strAt "author").getD "unknown agent"
  let recipient := (payload.strAt "recipient").getD "unknown recipient"
  let items := ((payload.get "content").bind Json.asArray).getD []
  textBlock 0 ("Agent message: " ++ author ++ " → " ++ recipient) ::
    items.mapIdx fun i item =>
      let text := (item.strAt "text").or
        (if item.strAt "type" = some "encrypted_content" then
          some "[Encrypted agent message; plaintext unavailable]" else none)
      match text with
      | some text => textBlock (i + 1) text
      | none => unknownBlock (i + 1) item

/-- `parse_codex_response_item`. -/
def codexResponseItem (h : Helpers) (value : Json) : CanonicalEvent :=
  let payload := (value.get "payload").getD .null
  let subtype := (payload.strAt "type").getD "response_item"
  match subtype with
  | "agent_message" =>
      { codexEvent .system subtype (agentMessageBlocks payload) with
        eventUuid := payload.strAt "id" }
  | "message" =>
      let role := (payload.strAt "role").getD "other"
      let speaker : Speaker :=
        match role with
        | "user" => .user
        | "assistant" => .assistant
        | "developer" | "system" => .system
        | _ => .other
      let blocks :=
        match payload.get "content" with
        | some (.arr items) => codexMessageItems items
        | some (.str s) => [textBlock 0 s]
        | _ => []
      { codexEvent speaker subtype blocks with isMeta := role == "developer" || role == "system" }
  | "reasoning" =>
      codexEvent .assistant subtype [thinkingBlock 0 ((codexReasoningText payload).getD "")]
  | "function_call" | "custom_tool_call" =>
      let callId := (payload.strAt "call_id").getD ""
      let name := (payload.strAt "name").getD subtype
      let name :=
        match (payload.strAt "namespace").filter fun s => !s.isEmpty with
        | some namespaceName => namespaceName ++ "." ++ name
        | none => name
      let input :=
        if subtype = "function_call" then parseJsonString h (payload.get "arguments")
        else (payload.get "input").getD .null
      codexEvent .assistant subtype [toolUseBlock h 0 callId name input]
  | "function_call_output" | "custom_tool_call_output" =>
      let callId := (payload.strAt "call_id").getD ""
      let text := (payload.get "output").bind (valueToText h)
      let isError := ((payload.get "is_error").bind Json.asBool).getD false ||
        (text.bind firstLine).any fun line => trimEnd line == "Script failed"
      { codexEvent .system subtype [toolResultBlock 0 callId text isError none] with
        relatedToolUseId := some callId }
  | _ => { codexEvent .system subtype [] with isMeta := true }

/-- `runtime_item_failed`. -/
def runtimeItemFailed (item : Json) : Bool :=
  ((item.get "exit_code").bind Json.asI64).any (· != 0) || item.strAt "status" == some "failed"

/-- `parse_codex_event_msg`. -/
def codexEventMsg (value : Json) : CanonicalEvent :=
  let payload := (value.get "payload").getD .null
  let subtype := (payload.strAt "type").getD "event_msg"
  let blocks :=
    if subtype = "item_completed" then
      match payload.get "item" with
      | some item =>
          if item.strAt "type" ∈ [some "CommandExecution", some "FileChange", some "Extension",
              some "ImageView"] then
            [toolResultBlock 0 ((item.strAt "id").getD "") none (runtimeItemFailed item)
              (some (.obj [("completed_at_ms", (payload.get "completed_at_ms").getD .null),
                ("runtime_item", item),
                ("started_at_ms", (payload.get "started_at_ms").getD .null)]))]
          else []
      | none => []
    else []
  { codexEvent .system subtype blocks with
    relatedToolUseId := payload.strAt "call_id", isMeta := true }

/-- `CodexParser::parse`. -/
def codexParse (h : Helpers) (value : Json) : CanonicalEvent :=
  let kind := (codexRecordKind value).getD ""
  match kind with
  | "response_item" => codexResponseItem h value
  | "event_msg" => codexEventMsg value
  | "session_meta" | "turn_context" | "compacted" | "token_usage_record" =>
      { codexEvent .system kind [] with isMeta := true }
  | _ =>
      { codexEvent .other kind [unknownBlock 0 value] with isMeta := true, contentKind := .none }

end Sulion.Ingest
