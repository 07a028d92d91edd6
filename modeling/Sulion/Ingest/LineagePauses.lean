import Sulion.Ingest.CanonicalRows

set_option autoImplicit false

/-! # Codex lineage across pauses

A tick starts from the context that `load_codex_context` finds in the rows stored so far: the
first `session_meta` row with the session's own id, and the last row of a turn. The context that
is threaded through all lines holds the *last* own `session_meta` record and the last own turn
record. Lineage does not depend on a pause exactly where the two lookups find records that say
the same.
-/

namespace Sulion.Ingest

open Rust Timeline

/-! ## Ticks -/

section

variable (jsonbText : Json → String) (h : Helpers) (session : Uuid)

/-- The rows of the first lookup of `load_codex_context`. -/
def isMetaRow (row : StoredRow) : Bool :=
  row.agent == "codex" && row.kind == "session_meta" &&
    row.payload.textAt jsonbText ["payload", "id"] == some (uuidText session)

/-- The rows of its second lookup. -/
def isTurnRow (row : StoredRow) : Bool :=
  row.agent == "codex" && (row.kind == "turn_context" || row.kind == "task_started") &&
    row.canonical.subtype != some inheritedHistory

/-- `load_codex_context`, of rows in the order of their offsets. -/
def loadCodexContext (rows : List StoredRow) : CodexSessionContext :=
  let ctx := CodexSessionContext.new session
  let ctx :=
    match rows.find? (isMetaRow jsonbText session) with
    | some row => updateCodexContext session ctx row.payload
    | none => ctx
  match rows.reverse.find? isTurnRow with
  | some row => updateCodexContext session ctx row.payload
  | none => ctx

/-- One tick: the lines behind the rows stored so far. -/
def tick (rows : List StoredRow) (lines : List Line) : List StoredRow :=
  rows ++ insertCodexLines h session (loadCodexContext jsonbText session rows) lines

/-- The rows of a session after some ticks. -/
def ingestTicks (ticks : List (List Line)) : List StoredRow :=
  ticks.foldl (tick jsonbText h session) []

end

/-- The columns that carry a row's lineage, with its blocks. -/
def StoredRow.lineage (row : StoredRow) :
    Option String × Option String × Option String × Bool × Option String × Table Int Block :=
  (row.canonical.eventUuid, row.canonical.parentEventUuid, row.canonical.relatedToolUseId,
    row.canonical.isSidechain, row.canonical.subtype, row.canonical.blocks)

/-! ## What the records say -/

/-- A record that sets the parent of the session and the start of its own history. -/
def isMetaRecord (value : Json) : Bool := codexRecordKind value == some "session_meta"

/-- A record that starts a turn. -/
def isTurnRecord (value : Json) : Bool :=
  codexRecordKind value == some "turn_context" ||
    (codexRecordKind value == some "event_msg" &&
      ((value.get "payload").getD .null).strAt "type" == some "task_started")

/-- `subagent_history_start_ordinal` of a `session_meta`. -/
def startOrdinal (value : Json) : Option Nat :=
  (((value.get "payload").getD .null).get "subagent_history_start_ordinal").bind Json.asU64

/-- `turn_id` of a record that starts a turn. -/
def turnId (value : Json) : Option String :=
  ((value.get "payload").getD .null).stringAt ["turn_id"]

/-- What later rows can tell of a session: whether it has a parent, the first ordinal of its own
history and the identity of the current turn, the session's own where there is none. -/
structure Lineage where
  sidechain : Bool
  start : Nat
  turn : String
  deriving DecidableEq, Repr

/-- The lineage that a `session_meta` and a turn record give. -/
def lineageOf (session : Uuid) (metaRecord turnRecord : Option Json) : Lineage where
  sidechain := (metaRecord.bind codexParentSession).isSome
  start := max ((metaRecord.bind startOrdinal).getD 0) 1
  turn := (turnRecord.bind turnId).getD (uuidText session)

/-- A row of the session's own history. -/
def StoredRow.isOwn (row : StoredRow) : Bool := row.canonical.subtype != some inheritedHistory

/-- The last own `session_meta` record of the rows. -/
def lastMeta (rows : List StoredRow) : Option Json :=
  (rows.reverse.find? fun row => row.isOwn && isMetaRecord row.payload).map StoredRow.payload

/-- The last own record that starts a turn. -/
def lastTurn (rows : List StoredRow) : Option Json :=
  (rows.reverse.find? fun row => row.isOwn && isTurnRecord row.payload).map StoredRow.payload

/-- The `session_meta` record that the first lookup finds, if it is one. -/
def foundMeta (jsonbText : Json → String) (session : Uuid) (rows : List StoredRow) : Option Json :=
  ((rows.find? (isMetaRow jsonbText session)).map StoredRow.payload).filter isMetaRecord

/-- The turn record that the second lookup finds, if it is one and not in front of the start
found. -/
def foundTurn (jsonbText : Json → String) (session : Uuid) (rows : List StoredRow) : Option Json :=
  ((rows.reverse.find? isTurnRow).map StoredRow.payload).filter fun value =>
    isTurnRecord value &&
      !beforeStart ((foundMeta jsonbText session rows).bind startOrdinal) value

/-- The two lookups find what the session's records say. -/
def Resumable (jsonbText : Json → String) (session : Uuid) (rows : List StoredRow) : Prop :=
  lineageOf session (foundMeta jsonbText session rows) (foundTurn jsonbText session rows) =
    lineageOf session (lastMeta rows) (lastTurn rows)

instance (jsonbText : Json → String) (session : Uuid) (rows : List StoredRow) :
    Decidable (Resumable jsonbText session rows) :=
  inferInstanceAs (Decidable (_ = _))

/-! ## Contexts -/

/-- The context of a `session_meta` and a turn record. -/
def contextOf (session : Uuid) (metaRecord turnRecord : Option Json) : CodexSessionContext where
  sessionId := uuidText session
  parentSessionId := metaRecord.bind codexParentSession
  currentTurnId := turnRecord.bind turnId
  historyStartOrdinal := metaRecord.bind startOrdinal

/-- The lineage a context holds. -/
def CodexSessionContext.lineage (ctx : CodexSessionContext) : Lineage where
  sidechain := ctx.parentSessionId.isSome
  start := max (ctx.historyStartOrdinal.getD 0) 1
  turn := ctx.currentTurnId.getD ctx.sessionId

@[simp] theorem contextOf_sessionId (session : Uuid) (metaRecord turnRecord : Option Json) :
    (contextOf session metaRecord turnRecord).sessionId = uuidText session := rfl

/-- The two kinds of records exclude each other. -/
theorem not_turn_of_meta (value : Json) (hmeta : isMetaRecord value = true) :
    isTurnRecord value = false := by
  have hkind : codexRecordKind value = some "session_meta" := by simpa [isMetaRecord] using hmeta
  simp [isTurnRecord, hkind]

theorem kind_of_getD {kind : Option String} {name : String} (h : kind.getD "" = name)
    (hname : name ≠ "") : kind = some name := by
  cases kind with
  | none => exact absurd h.symm hname
  | some kind => exact congrArg some h

theorem stringAt_payload (value : Json) (key : String) :
    value.stringAt ["payload", key] =
      ((value.get "payload").getD .null).stringAt [key] := by
  simp only [Json.stringAt, Json.at?]
  cases value.get "payload" with
  | none => rfl
  | some payload => rfl

/-- A `session_meta` that is not another session's names the session, or none. -/
theorem metaRecord_id (session : Uuid) (ctx : CodexSessionContext) (value : Json)
    (hown : ctx.sessionId = uuidText session) (hmeta : isMetaRecord value = true)
    (hinherited : ctx.isInherited value = false) :
    (((value.get "payload").getD .null).stringAt ["id"]).getD (uuidText session) =
      uuidText session := by
  simp only [CodexSessionContext.isInherited, Bool.or_eq_false_iff, foreignMeta,
    stringAt_payload, hown] at hinherited
  have hkind : (codexRecordKind value == some "session_meta") = true := hmeta
  rw [hkind, Bool.true_and] at hinherited
  cases hid : ((value.get "payload").getD .null).stringAt ["id"] with
  | none => rfl
  | some id => simpa [hid] using hinherited.1

/-- **What a record does to the context**, in a session that knows its own id. -/
theorem updateCodexContext_eq (session : Uuid) (ctx : CodexSessionContext) (value : Json)
    (hown : ctx.sessionId = uuidText session) :
    updateCodexContext session ctx value =
      if ctx.isInherited value then ctx
      else if isMetaRecord value then
        { ctx with
          parentSessionId := codexParentSession value
          historyStartOrdinal := startOrdinal value }
      else if isTurnRecord value then { ctx with currentTurnId := turnId value }
      else ctx := by
  unfold updateCodexContext
  cases hinherited : ctx.isInherited value with
  | true => rfl
  | false =>
      cases hmeta : isMetaRecord value with
      | true =>
          have hkind : codexRecordKind value = some "session_meta" := by
            simpa [isMetaRecord] using hmeta
          have hid := metaRecord_id session ctx value hown hmeta hinherited
          simp [hkind, startOrdinal, hid, hown]
      | false =>
          have hkind : codexRecordKind value ≠ some "session_meta" := by
            simpa [isMetaRecord] using hmeta
          simp only [Bool.false_eq_true, if_false, isTurnRecord, turnId]
          split
          · next heq => exact absurd (kind_of_getD heq (by decide)) hkind
          · next heq => simp [kind_of_getD heq (by decide)]
          · next heq => simp [kind_of_getD heq (by decide)]
          · next hturn hmsg =>
              have hnoTurn : codexRecordKind value ≠ some "turn_context" := by
                intro heq
                exact hturn (by simp [heq])
              have hnoMsg : codexRecordKind value ≠ some "event_msg" := by
                intro heq
                exact hmsg (by simp [heq])
              simp [hnoTurn, hnoMsg]

theorem updateCodexContext_sessionId (session : Uuid) (ctx : CodexSessionContext) (value : Json)
    (hown : ctx.sessionId = uuidText session) :
    (updateCodexContext session ctx value).sessionId = uuidText session := by
  rw [updateCodexContext_eq session ctx value hown]
  split
  · exact hown
  · split
    · exact hown
    · split <;> exact hown

/-! ## Contexts of one lineage -/

/-- No ordinal tells an absent start from one of zero or one. -/
theorem beforeStart_eq (start : Option Nat) (value : Json) :
    beforeStart start value = beforeStart (some (max (start.getD 0) 1)) value := by
  unfold beforeStart
  cases start with
  | none =>
      cases (value.get "ordinal").bind Json.asU64 with
      | none => rfl
      | some ordinal =>
          show false = decide (0 < ordinal ∧ ordinal < max 0 1)
          exact (decide_eq_false (by omega)).symm
  | some start =>
      cases (value.get "ordinal").bind Json.asU64 with
      | none => rfl
      | some ordinal =>
          have hsame : (0 < ordinal ∧ ordinal < start) ↔
              (0 < ordinal ∧ ordinal < max start 1) := by omega
          simp [hsame]

theorem beforeStart_of_ordinal (start : Option Nat) {value : Json} {ordinal : Nat}
    (hordinal : (value.get "ordinal").bind Json.asU64 = some ordinal) (hpos : 0 < ordinal) :
    beforeStart start value = decide (ordinal < max (start.getD 0) 1) := by
  rw [beforeStart_eq]
  unfold beforeStart
  simp [hordinal, hpos]

theorem isInherited_congr {ctx ctx' : CodexSessionContext} (value : Json)
    (hid : ctx.sessionId = ctx'.sessionId) (hlineage : ctx.lineage = ctx'.lineage) :
    ctx.isInherited value = ctx'.isInherited value := by
  have hstart : max (ctx.historyStartOrdinal.getD 0) 1 =
      max (ctx'.historyStartOrdinal.getD 0) 1 := congrArg Lineage.start hlineage
  unfold CodexSessionContext.isInherited
  rw [hid, beforeStart_eq, hstart, ← beforeStart_eq]

/-- **Contexts of one lineage enrich a record alike.** -/
theorem enrichCodexLineage_congr {ctx ctx' : CodexSessionContext} (parsed : CanonicalEvent)
    (value : Json) (session : Uuid) (byteOffset : Int) (hid : ctx.sessionId = ctx'.sessionId)
    (hlineage : ctx.lineage = ctx'.lineage) :
    enrichCodexLineage parsed value session byteOffset (some ctx) =
      enrichCodexLineage parsed value session byteOffset (some ctx') := by
  have hsidechain : ctx.parentSessionId.isSome = ctx'.parentSessionId.isSome :=
    congrArg Lineage.sidechain hlineage
  have hturn : ctx.currentTurnId.getD ctx.sessionId = ctx'.currentTurnId.getD ctx'.sessionId :=
    congrArg Lineage.turn hlineage
  simp only [enrichCodexLineage, Option.any_some, Option.bind_some, Option.map_some,
    Option.getD_some, isInherited_congr value hid hlineage, hsidechain, hturn]
  rw [hid]

/-- Contexts of one lineage keep one lineage. -/
theorem updateCodexContext_lineage_congr {session : Uuid} {ctx ctx' : CodexSessionContext}
    (value : Json) (hown : ctx.sessionId = uuidText session)
    (hown' : ctx'.sessionId = uuidText session) (hlineage : ctx.lineage = ctx'.lineage) :
    (updateCodexContext session ctx value).lineage =
      (updateCodexContext session ctx' value).lineage := by
  have hsidechain : ctx.parentSessionId.isSome = ctx'.parentSessionId.isSome :=
    congrArg Lineage.sidechain hlineage
  have hstart : max (ctx.historyStartOrdinal.getD 0) 1 =
      max (ctx'.historyStartOrdinal.getD 0) 1 := congrArg Lineage.start hlineage
  have hturn : ctx.currentTurnId.getD (uuidText session) =
      ctx'.currentTurnId.getD (uuidText session) := by
    simpa only [CodexSessionContext.lineage, hown, hown'] using congrArg Lineage.turn hlineage
  rw [updateCodexContext_eq session ctx value hown, updateCodexContext_eq session ctx' value hown',
    isInherited_congr value (hown.trans hown'.symm) hlineage]
  split
  · exact hlineage
  · split
    · simp only [CodexSessionContext.lineage, hown, hown', hturn]
    · split
      · simp only [CodexSessionContext.lineage, hown, hown', hsidechain, hstart]
      · exact hlineage

/-- **Contexts of one lineage write the same rows.** -/
theorem insertCodexLines_congr (h : Helpers) (session : Uuid) (lines : List Line) :
    ∀ {ctx ctx' : CodexSessionContext}, ctx.sessionId = uuidText session →
      ctx'.sessionId = uuidText session → ctx.lineage = ctx'.lineage →
      insertCodexLines h session ctx lines = insertCodexLines h session ctx' lines := by
  induction lines with
  | nil =>
      intro ctx ctx' _ _ _
      rfl
  | cons line lines ih =>
      intro ctx ctx' hown hown' hlineage
      have hrow : insertCanonicalEvent h .codex session (some ctx) line =
          insertCanonicalEvent h .codex session (some ctx') line := by
        unfold insertCanonicalEvent parseCanonicalEvent
        rw [enrichCodexLineage_congr _ _ _ _ (hown.trans hown'.symm) hlineage]
      rw [insertCodexLines, insertCodexLines, hrow]
      congr 1
      apply ih
      · exact updateCodexContext_sessionId session ctx line.payload hown
      · exact updateCodexContext_sessionId session ctx' line.payload hown'
      · exact updateCodexContext_lineage_congr line.payload hown hown' hlineage

/-! ## The rows of a run of lines -/

/-- The context behind a run of lines. -/
def foldCodexContext (session : Uuid) (ctx : CodexSessionContext) (lines : List Line) :
    CodexSessionContext :=
  lines.foldl (fun ctx line => updateCodexContext session ctx line.payload) ctx

theorem insertCodexLines_append (h : Helpers) (session : Uuid) (ctx : CodexSessionContext)
    (lines next : List Line) :
    insertCodexLines h session ctx (lines ++ next) =
      insertCodexLines h session ctx lines ++
        insertCodexLines h session (foldCodexContext session ctx lines) next := by
  induction lines generalizing ctx with
  | nil => rfl
  | cons line lines ih =>
      rw [List.cons_append, insertCodexLines, insertCodexLines, ih]
      rfl

/-- What a row of a Codex line is to both lookups. -/
structure StoredRow.OfCodex (row : StoredRow) : Prop where
  agent : row.agent = "codex"
  kind : row.kind = storedEventKind .codex row.payload

theorem insertCanonicalEvent_ofCodex (h : Helpers) (session : Uuid) (ctx : CodexSessionContext)
    (line : Line) : (insertCanonicalEvent h .codex session (some ctx) line).OfCodex where
  agent := parseCanonicalEvent_agent h .codex line.payload session line.byteOffset (some ctx)
  kind := rfl

theorem insertCodexLines_ofCodex (h : Helpers) (session : Uuid) (ctx : CodexSessionContext)
    (lines : List Line) (row : StoredRow) (hrow : row ∈ insertCodexLines h session ctx lines) :
    row.OfCodex := by
  induction lines generalizing ctx with
  | nil => cases hrow
  | cons line lines ih =>
      rcases List.mem_cons.mp hrow with rfl | hrow
      · exact insertCanonicalEvent_ofCodex h session ctx line
      · exact ih _ hrow

theorem enrichCodexLineage_subtype (parsed : CanonicalEvent) (value : Json) (session : Uuid)
    (byteOffset : Int) (ctx : CodexSessionContext) :
    (enrichCodexLineage parsed value session byteOffset (some ctx)).subtype =
      if ctx.isInherited value then some inheritedHistory else parsed.subtype := by
  unfold enrichCodexLineage
  simp only [Option.any_some]
  split
  · rfl
  · split
    · rfl
    · rfl
    · rfl
    · unfold enrichEventMsg
      dsimp only
      split
      · split <;> rfl
      all_goals rfl
    · rfl

theorem insertCanonicalEvent_subtype (h : Helpers) (session : Uuid) (ctx : CodexSessionContext)
    (line : Line) :
    (insertCanonicalEvent h .codex session (some ctx) line).canonical.subtype =
      if ctx.isInherited line.payload then some inheritedHistory
      else (codexParse h line.payload).subtype :=
  enrichCodexLineage_subtype (codexParse h line.payload) line.payload session line.byteOffset ctx

/-- The parser gives a record that sets the lineage no subtype of an inherited one. -/
theorem codexParse_subtype (h : Helpers) (value : Json)
    (hrecord : isMetaRecord value = true ∨ isTurnRecord value = true) :
    (codexParse h value).subtype ≠ some inheritedHistory := by
  have hkinds : codexRecordKind value = some "session_meta" ∨
      codexRecordKind value = some "turn_context" ∨
      (codexRecordKind value = some "event_msg" ∧
        ((value.get "payload").getD .null).strAt "type" = some "task_started") := by
    simpa [isMetaRecord, isTurnRecord] using hrecord
  rcases hkinds with hkind | hkind | ⟨hkind, htype⟩
  · simp [codexParse, hkind, codexEvent, inheritedHistory]
  · simp [codexParse, hkind, codexEvent, inheritedHistory]
  · simp [codexParse, hkind, codexEventMsg, htype, codexEvent, inheritedHistory]

/-- A record that sets the lineage is stored as inherited exactly where the context leaves it
out. -/
theorem insertCanonicalEvent_isOwn (h : Helpers) (session : Uuid) (ctx : CodexSessionContext)
    (line : Line) (hrecord : isMetaRecord line.payload = true ∨ isTurnRecord line.payload = true) :
    (insertCanonicalEvent h .codex session (some ctx) line).isOwn =
      !ctx.isInherited line.payload := by
  rw [StoredRow.isOwn, insertCanonicalEvent_subtype]
  cases ctx.isInherited line.payload with
  | true => simp
  | false => simpa using codexParse_subtype h line.payload hrecord

theorem lastMeta_append (rows : List StoredRow) (row : StoredRow) :
    lastMeta (rows ++ [row]) =
      if row.isOwn && isMetaRecord row.payload then some row.payload else lastMeta rows := by
  simp only [lastMeta, List.reverse_append, List.reverse_cons, List.reverse_nil, List.nil_append,
    List.singleton_append, List.find?_cons]
  cases row.isOwn && isMetaRecord row.payload <;> rfl

theorem lastTurn_append (rows : List StoredRow) (row : StoredRow) :
    lastTurn (rows ++ [row]) =
      if row.isOwn && isTurnRecord row.payload then some row.payload else lastTurn rows := by
  simp only [lastTurn, List.reverse_append, List.reverse_cons, List.reverse_nil, List.nil_append,
    List.singleton_append, List.find?_cons]
  cases row.isOwn && isTurnRecord row.payload <;> rfl

/-- **The threaded context** holds the last own records of the stored rows. -/
theorem foldCodexContext_eq (h : Helpers) (session : Uuid) (lines : List Line) :
    foldCodexContext session (.new session) lines =
      contextOf session (lastMeta (insertCodexLines h session (.new session) lines))
        (lastTurn (insertCodexLines h session (.new session) lines)) := by
  induction lines using List.reverseRecOn with
  | nil => rfl
  | append_singleton lines line ih =>
      rw [insertCodexLines_append]
      generalize hctx : foldCodexContext session (.new session) lines = ctx at ih ⊢
      have hown : ctx.sessionId = uuidText session := by rw [ih, contextOf_sessionId]
      have hfold : foldCodexContext session (.new session) (lines ++ [line]) =
          updateCodexContext session ctx line.payload := by
        rw [← hctx, foldCodexContext, foldCodexContext, List.foldl_append]
        rfl
      have hrow : insertCodexLines h session ctx [line] =
          [insertCanonicalEvent h .codex session (some ctx) line] := rfl
      have hpayload : (insertCanonicalEvent h .codex session (some ctx) line).payload =
          line.payload := rfl
      rw [hfold, hrow, lastMeta_append, lastTurn_append, hpayload,
        updateCodexContext_eq session ctx line.payload hown]
      cases hmeta : isMetaRecord line.payload with
      | true =>
          rw [insertCanonicalEvent_isOwn h session ctx line (.inl hmeta),
            not_turn_of_meta line.payload hmeta]
          cases ctx.isInherited line.payload with
          | true => simpa using ih
          | false => simp [ih, contextOf]
      | false =>
          cases hturn : isTurnRecord line.payload with
          | true =>
              rw [insertCanonicalEvent_isOwn h session ctx line (.inr hturn)]
              cases ctx.isInherited line.payload with
              | true => simpa using ih
              | false => simp [ih, contextOf]
          | false => simpa using ih

/-! ## The loaded context -/

theorem storedEventKind_meta (value : Json) (hmeta : isMetaRecord value = true) :
    storedEventKind .codex value = "session_meta" := by
  have hkind : codexRecordKind value = some "session_meta" := by simpa [isMetaRecord] using hmeta
  simp [storedEventKind, hkind]

theorem storedEventKind_turn (value : Json) (hturn : isTurnRecord value = true) :
    storedEventKind .codex value = "turn_context" ∨
      storedEventKind .codex value = "task_started" := by
  have hkinds : codexRecordKind value = some "turn_context" ∨
      (codexRecordKind value = some "event_msg" ∧
        ((value.get "payload").getD .null).strAt "type" = some "task_started") := by
    simpa [isTurnRecord] using hturn
  rcases hkinds with hkind | ⟨hkind, htype⟩
  · left
    simp [storedEventKind, hkind]
  · right
    have htype' : value.stringAt ["payload", "type"] = some "task_started" := by
      rw [stringAt_payload]
      simpa [Json.stringAt, Json.at?, Json.strAt] using htype
    simp [storedEventKind, hkind, htype', Option.filter_some]

/-- A text under a path is the string there, if there is one. -/
theorem stringAt_of_textAt {jsonbText : Json → String} {value : Json} {path : List String}
    {text : String} (htext : value.textAt jsonbText path = some text) :
    (value.stringAt path).any (· != text) = false := by
  unfold Json.textAt at htext
  unfold Json.stringAt
  split at htext
  all_goals simp_all [Json.asStr]

variable (jsonbText : Json → String) (session : Uuid)

/-- The first lookup. -/
theorem load_meta (rows : List StoredRow) (hcodex : ∀ row ∈ rows, row.OfCodex) :
    (match rows.find? (isMetaRow jsonbText session) with
      | some row => updateCodexContext session (.new session) row.payload
      | none => .new session) = contextOf session (foundMeta jsonbText session rows) none := by
  unfold foundMeta
  cases hfind : rows.find? (isMetaRow jsonbText session) with
  | none => rfl
  | some row =>
      have hrow : isMetaRow jsonbText session row = true := List.find?_some hfind
      have hkind : storedEventKind .codex row.payload = "session_meta" := by
        rw [← (hcodex row (List.mem_of_find?_eq_some hfind)).kind]
        simp only [isMetaRow, Bool.and_eq_true, beq_iff_eq] at hrow
        exact hrow.1.2
      have hturn : isTurnRecord row.payload = false := by
        apply Bool.eq_false_iff.mpr
        intro hturn
        rcases storedEventKind_turn row.payload hturn with hother | hother
        · exact absurd (hkind.symm.trans hother) (by decide)
        · exact absurd (hkind.symm.trans hother) (by decide)
      have hid : (row.payload.stringAt ["payload", "id"]).any (· != uuidText session) = false := by
        apply stringAt_of_textAt
        simp only [isMetaRow, Bool.and_eq_true, beq_iff_eq] at hrow
        exact hrow.2
      have hinherited : (CodexSessionContext.new session).isInherited row.payload = false := by
        simp [CodexSessionContext.isInherited, foreignMeta, CodexSessionContext.new, hid,
          beforeStart]
      simp only [updateCodexContext_eq session (.new session) row.payload rfl, hinherited, hturn,
        Bool.false_eq_true, if_false, Option.map_some, Option.filter_some]
      cases isMetaRecord row.payload <;> rfl

/-- **The loaded context** holds what the two lookups find. -/
theorem loadCodexContext_eq (rows : List StoredRow) (hcodex : ∀ row ∈ rows, row.OfCodex) :
    loadCodexContext jsonbText session rows =
      contextOf session (foundMeta jsonbText session rows) (foundTurn jsonbText session rows) := by
  unfold loadCodexContext
  dsimp only
  rw [load_meta jsonbText session rows hcodex]
  unfold foundTurn
  generalize foundMeta jsonbText session rows = found
  cases hfind : rows.reverse.find? isTurnRow with
  | none => rfl
  | some row =>
      have hrow : isTurnRow row = true := List.find?_some hfind
      have hmem : row ∈ rows := List.mem_reverse.mp (List.mem_of_find?_eq_some hfind)
      have hkinds : storedEventKind .codex row.payload = "turn_context" ∨
          storedEventKind .codex row.payload = "task_started" := by
        rw [← (hcodex row hmem).kind]
        simp only [isTurnRow, Bool.and_eq_true, Bool.or_eq_true, beq_iff_eq] at hrow
        exact hrow.1.2
      have hmeta : isMetaRecord row.payload = false := by
        apply Bool.eq_false_iff.mpr
        intro hmeta
        rw [storedEventKind_meta row.payload hmeta] at hkinds
        rcases hkinds with hother | hother <;> exact absurd hother (by decide)
      have hinherited : (contextOf session found none).isInherited row.payload =
          beforeStart (found.bind startOrdinal) row.payload := by
        have hkind : (codexRecordKind row.payload == some "session_meta") = false := hmeta
        simp [CodexSessionContext.isInherited, foreignMeta, hkind, contextOf]
      simp only [updateCodexContext_eq session _ row.payload (contextOf_sessionId _ _ _),
        hinherited, hmeta, Bool.false_eq_true, if_false, Option.map_some, Option.filter_some]
      cases beforeStart (found.bind startOrdinal) row.payload with
      | true => simp [contextOf]
      | false =>
          cases isTurnRecord row.payload with
          | true => simp [contextOf]
          | false => simp [contextOf]

/-! ## Records that tell two lineages apart -/

/-- A record of a kind without lineage, at an ordinal. -/
def ordinalLine (ordinal : Nat) : Line where
  byteOffset := 0
  payload := .obj [("type", .str "compacted"), ("ordinal", .int ordinal)]
  link := none

/-- A record of a kind, with nothing else in it. -/
def bareLine (kind : String) : Line where
  byteOffset := 0
  payload := .obj [("type", .str kind)]
  link := none

variable (h : Helpers)

theorem ordinalLine_subtype (ctx : CodexSessionContext) (ordinal : Nat) (hpos : 0 < ordinal)
    (hlt : ordinal < 2 ^ 64) :
    (insertCanonicalEvent h .codex session (some ctx) (ordinalLine ordinal)).canonical.subtype =
      if ordinal < ctx.lineage.start then some inheritedHistory else some "compacted" := by
  have hordinal : ((ordinalLine ordinal).payload.get "ordinal").bind Json.asU64 = some ordinal := by
    have hget : (ordinalLine ordinal).payload.get "ordinal" = some (.int ordinal) := rfl
    rw [hget, Option.bind_some]
    unfold Json.asU64
    dsimp only
    rw [if_pos ⟨Int.natCast_nonneg _, by omega⟩, Int.toNat_natCast]
  have hforeign : foreignMeta ctx.sessionId (ordinalLine ordinal).payload = false := rfl
  have hinherited : ctx.isInherited (ordinalLine ordinal).payload =
      decide (ordinal < ctx.lineage.start) := by
    rw [CodexSessionContext.isInherited, hforeign, Bool.false_or]
    exact beforeStart_of_ordinal ctx.historyStartOrdinal hordinal hpos
  have hkind : codexRecordKind (ordinalLine ordinal).payload = some "compacted" := rfl
  have hparsed : (codexParse h (ordinalLine ordinal).payload).subtype = some "compacted" := by
    simp [codexParse, hkind, codexEvent]
  rw [insertCanonicalEvent_subtype, hinherited, hparsed]
  simp

theorem bareLine_inherited (ctx : CodexSessionContext) (kind : String)
    (hkind : kind ≠ "session_meta") : ctx.isInherited (bareLine kind).payload = false := by
  simp [CodexSessionContext.isInherited, foreignMeta, beforeStart, bareLine, codexRecordKind,
    Json.get, Json.asStr, List.lookup_cons, hkind]

theorem turnContext_isSidechain (ctx : CodexSessionContext) :
    (insertCanonicalEvent h .codex session (some ctx)
        (bareLine "turn_context")).canonical.isSidechain = ctx.lineage.sidechain := by
  have hinherited := bareLine_inherited ctx "turn_context" (by decide)
  have hkind : codexRecordKind (bareLine "turn_context").payload = some "turn_context" := rfl
  simp [insertCanonicalEvent, insertParsed, canonicalRow, parseCanonicalEvent, enrichCodexLineage,
    TranscriptSource.agentId, hinherited, hkind, CodexSessionContext.lineage]

theorem responseItem_parent (ctx : CodexSessionContext) :
    (insertCanonicalEvent h .codex session (some ctx)
        (bareLine "response_item")).canonical.parentEventUuid = some ctx.lineage.turn := by
  have hinherited := bareLine_inherited ctx "response_item" (by decide)
  have hkind : codexRecordKind (bareLine "response_item").payload = some "response_item" := rfl
  simp [insertCanonicalEvent, insertParsed, canonicalRow, parseCanonicalEvent, enrichCodexLineage,
    TranscriptSource.agentId, hinherited, hkind, CodexSessionContext.lineage, enrichResponseItem]

/-- An ordinal between two starts is inherited history for one of them only. -/
theorem start_eq_of_rows {ctx ctx' : CodexSessionContext} (hpos : 0 < ctx.lineage.start)
    (hlt : ctx.lineage.start < 2 ^ 64)
    (hrows : ∀ line, (insertCanonicalEvent h .codex session (some ctx) line).lineage =
      (insertCanonicalEvent h .codex session (some ctx') line).lineage) :
    ctx'.lineage.start ≤ ctx.lineage.start := by
  have hsubtype : (insertCanonicalEvent h .codex session (some ctx)
      (ordinalLine ctx.lineage.start)).canonical.subtype = (insertCanonicalEvent h .codex session
      (some ctx') (ordinalLine ctx.lineage.start)).canonical.subtype :=
    congrArg (fun columns => columns.2.2.2.2.1) (hrows _)
  rw [ordinalLine_subtype session h ctx _ hpos hlt, ordinalLine_subtype session h ctx' _ hpos hlt,
    if_neg (Nat.lt_irrefl _)] at hsubtype
  by_contra hstart
  rw [if_pos (by omega)] at hsubtype
  exact absurd hsubtype (by decide)

/-- **Contexts that write the same rows have one lineage.** -/
theorem lineage_eq_of_rows {ctx ctx' : CodexSessionContext} (hpos : 0 < ctx.lineage.start)
    (hlt : ctx.lineage.start < 2 ^ 64) (hpos' : 0 < ctx'.lineage.start)
    (hlt' : ctx'.lineage.start < 2 ^ 64)
    (hrows : ∀ line, (insertCanonicalEvent h .codex session (some ctx) line).lineage =
      (insertCanonicalEvent h .codex session (some ctx') line).lineage) :
    ctx.lineage = ctx'.lineage := by
  have hstart : ctx.lineage.start = ctx'.lineage.start := by
    apply Nat.le_antisymm
    · exact start_eq_of_rows session h hpos' hlt' fun line => (hrows line).symm
    · exact start_eq_of_rows session h hpos hlt hrows
  have hsidechain : ctx.lineage.sidechain = ctx'.lineage.sidechain := by
    rw [← turnContext_isSidechain session h ctx, ← turnContext_isSidechain session h ctx']
    exact congrArg (fun columns => columns.2.2.2.1) (hrows (bareLine "turn_context"))
  have hturn : ctx.lineage.turn = ctx'.lineage.turn := by
    apply Option.some_inj.mp
    rw [← responseItem_parent session h ctx, ← responseItem_parent session h ctx']
    exact congrArg (fun columns => columns.2.1) (hrows (bareLine "response_item"))
  calc ctx.lineage = ⟨ctx.lineage.sidechain, ctx.lineage.start, ctx.lineage.turn⟩ := rfl
    _ = ⟨ctx'.lineage.sidechain, ctx'.lineage.start, ctx'.lineage.turn⟩ := by
        rw [hstart, hsidechain, hturn]

theorem lineageOf_start (metaRecord turnRecord : Option Json) :
    0 < (lineageOf session metaRecord turnRecord).start ∧
      (lineageOf session metaRecord turnRecord).start < 2 ^ 64 := by
  have hlt : (metaRecord.bind startOrdinal).getD 0 < 2 ^ 64 := by
    cases hstart : metaRecord.bind startOrdinal with
    | none => decide
    | some start =>
        obtain ⟨value, -, hvalue⟩ := Option.bind_eq_some_iff.mp hstart
        obtain ⟨ordinal, -, hordinal⟩ := Option.bind_eq_some_iff.mp hvalue
        unfold Json.asU64 at hordinal
        split at hordinal
        · split at hordinal
          · next hrange =>
              obtain rfl := Option.some_inj.mp hordinal
              rw [Option.getD_some]
              omega
          · cases hordinal
        · cases hordinal
  show 0 < max _ 1 ∧ max _ 1 < 2 ^ 64
  omega

/-! ## Pauses -/

/-- A tick behind the rows of a history, where the lookups find what its records say. -/
theorem tick_of_resumable (history next : List Line)
    (hresumable : Resumable jsonbText session (insertLines h .codex session history)) :
    tick jsonbText h session (insertLines h .codex session history) next =
      insertLines h .codex session (history ++ next) := by
  have hcodex := insertCodexLines_ofCodex h session (.new session) history
  simp only [tick, insertLines] at hresumable ⊢
  rw [insertCodexLines_append, foldCodexContext_eq h, loadCodexContext_eq _ _ _ hcodex]
  congr 1
  exact insertCodexLines_congr h session next rfl rfl hresumable

/-- **What a pause needs.** Every continuation of a history behind a pause is stored as without
the pause exactly where the two lookups find what the records of the history say. -/
theorem resumable_iff (history : List Line) :
    (∀ next : List Line,
      (tick jsonbText h session (insertLines h .codex session history) next).map
          StoredRow.lineage =
        (insertLines h .codex session (history ++ next)).map StoredRow.lineage) ↔
      Resumable jsonbText session (insertLines h .codex session history) := by
  constructor
  · intro hall
    have hcodex := insertCodexLines_ofCodex h session (.new session) history
    simp only [tick, insertLines, insertCodexLines_append, foldCodexContext_eq h,
      loadCodexContext_eq jsonbText session _ hcodex] at hall
    show Resumable jsonbText session (insertCodexLines h session (.new session) history)
    show (contextOf session _ _).lineage = (contextOf session _ _).lineage
    apply lineage_eq_of_rows session h
    · exact (lineageOf_start session _ _).1
    · exact (lineageOf_start session _ _).2
    · exact (lineageOf_start session _ _).1
    · exact (lineageOf_start session _ _).2
    intro line
    simpa [insertCodexLines] using hall [line]
  · intro hresumable next
    rw [tick_of_resumable jsonbText session h history next hresumable]

/-- **Lineage across pauses.** However a list of records is cut into ticks, if the two lookups
find at every pause what the records so far say, the rows are those of one pass. And at any pause
this is what it takes: otherwise some continuation is stored with another lineage. -/
theorem pauses_keep_lineage :
    (∀ ticks : List (List Line),
      (∀ k < ticks.length, Resumable jsonbText session
        (insertLines h .codex session (ticks.take k).flatten)) →
      ingestTicks jsonbText h session ticks = insertLines h .codex session ticks.flatten) ∧
    ∀ history : List Line,
      (∀ next : List Line,
        (tick jsonbText h session (insertLines h .codex session history) next).map
            StoredRow.lineage =
          (insertLines h .codex session (history ++ next)).map StoredRow.lineage) ↔
        Resumable jsonbText session (insertLines h .codex session history) := by
  constructor
  · intro ticks
    induction ticks using List.reverseRecOn with
    | nil =>
        intro _
        rfl
    | append_singleton ticks lines ih =>
        intro hresumable
        have hbefore : ingestTicks jsonbText h session ticks =
            insertLines h .codex session ticks.flatten := by
          apply ih
          intro k hk
          have hcut : (ticks ++ [lines]).take k = ticks.take k :=
            List.take_append_of_le_length (Nat.le_of_lt hk)
          rw [← hcut]
          apply hresumable k
          rw [List.length_append]
          omega
        have hpause : Resumable jsonbText session
            (insertLines h .codex session ticks.flatten) := by
          have hlast := hresumable ticks.length (by simp)
          rwa [List.take_left] at hlast
        calc ingestTicks jsonbText h session (ticks ++ [lines])
            = tick jsonbText h session (ingestTicks jsonbText h session ticks) lines := by
              rw [ingestTicks, List.foldl_append]
              rfl
          _ = insertLines h .codex session (ticks.flatten ++ lines) := by
              rw [hbefore]
              exact tick_of_resumable jsonbText session h ticks.flatten lines hpause
          _ = insertLines h .codex session (ticks ++ [lines]).flatten := by
              rw [List.flatten_append, List.flatten_singleton]
  · exact resumable_iff jsonbText session h

/-! ## A second `session_meta` -/

/-- A `session_meta` of session 7, forked from another session or not. -/
def ownMetaLine (byteOffset : Int) (parent : Option String) : Line where
  byteOffset := byteOffset
  payload := .obj [("type", .str "session_meta"),
    ("payload", .obj (("id", .str (uuidText 7)) ::
      (parent.map fun parent => ("forked_from_id", .str parent)).toList))]
  link := none

/-- A session without a parent is the same in two ticks and in one. -/
theorem pause_keeps_lineage_of_root :
    ingestTicks (fun _ => "json") plainHelpers 7
        [[ownMetaLine 0 none, ownMetaLine 100 none], [bareLine "turn_context"]] =
      insertLines plainHelpers .codex 7
        [[ownMetaLine 0 none, ownMetaLine 100 none], [bareLine "turn_context"]].flatten :=
  (pauses_keep_lineage (fun _ => "json") 7 plainHelpers).1
    [[ownMetaLine 0 none, ownMetaLine 100 none], [bareLine "turn_context"]] (by decide +kernel)

/-- Behind a pause the first `session_meta` counts again, and the turn is a sidechain. -/
theorem pause_loses_second_meta :
    ¬ ∀ (jsonbText : Json → String) (h : Helpers) (session : Uuid) (ticks : List (List Line)),
        (ingestTicks jsonbText h session ticks).map StoredRow.lineage =
          (insertLines h .codex session ticks.flatten).map StoredRow.lineage := by
  intro hall
  have hsidechains := congrArg (List.map fun columns => columns.2.2.2.1)
    (hall (fun _ => "json") plainHelpers 7
      [[ownMetaLine 0 (some "parent"), ownMetaLine 100 none], [bareLine "turn_context"]])
  revert hsidechains
  decide +kernel

end Sulion.Ingest
