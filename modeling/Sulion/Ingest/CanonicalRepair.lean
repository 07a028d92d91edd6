import Sulion.Ingest.CanonicalRows

set_option autoImplicit false

/-! # Repairing canonical rows

`backfill_canonical_blocks` and `backfill_claude_compaction` parse stored records again and
rewrite their canonical rows. A selected Claude row is repaired by itself, a selected Codex
session as a whole with the context threaded through its rows. What `insert_event` adds to a
parsed record, the link of a subagent transcript, the repair does not know.
-/

namespace Sulion.Ingest

open Rust Timeline

/-! ## What the passes select -/

/-- `payload -> key`, an index on an array. -/
def element (value : Json) (key : String) : Option Json :=
  match value with
  | .arr items => key.toNat?.bind fun i => items[i]?
  | other => other.get key

/-- `value #> path`. -/
def atPath (value : Json) (path : List String) : Option Json :=
  path.foldl (fun value key => value.bind fun value => element value key) (some value)

/-- The text of `->>` and `#>>`: null for nothing and for a JSON null. -/
def sqlText (jsonbText : Json → String) : Option Json → Option String
  | none | some .null => none
  | some (.str s) => some s
  | some other => some (jsonbText other)

/-- `value ? key`. -/
def hasKey (value : Json) (key : String) : Bool :=
  match value with
  | .obj fields => fields.any fun field => field.1 == key
  | .arr items => items.any fun item => item.asStr == some key
  | .str s => s == key
  | _ => false

section

variable (jsonbText : Json → String)

/-- `value ->> key`. -/
def fieldText (value : Json) (key : String) : Option String :=
  sqlText jsonbText (element value key)

/-- A Code Mode call in its raw form. -/
def isRawExec (block : Block) : Bool :=
  block.kind == .toolUse && block.toolNameCanonical.or block.toolName == some "exec" &&
    block.toolInput.any fun input =>
      match input with
      | .str _ => true
      | .obj fields =>
          containsText ((fieldText jsonbText (.obj fields) "code").getD "") "tools."
      | _ => false

/-- The Codex condition of `backfill_canonical_blocks`. The columns it compares with null are
never null in a row that `insert_event` has written. -/
def selectsCodexRow (row : StoredRow) : Bool :=
  let text (path : List String) : Option String := sqlText jsonbText (atPath row.payload path)
  row.agent == "codex" &&
    ((text ["payload", "type"] == some "agent_message" ||
        text ["payload", "type"] == some "item_completed") ||
      ((text ["payload", "output", "0", "text"]).or (text ["payload", "output"])).any
        (startsWith · "Script failed") ||
      (atPath row.payload ["payload", "subagent_history_start_ordinal"]).isSome ||
      (atPath row.payload ["payload", "namespace"]).isSome ||
      (row.canonical.contentKind != "none" && row.canonical.blocks.isEmpty) ||
      (Table.rows row.canonical.blocks).any (isRawExec jsonbText))

/-- The Claude condition of `backfill_canonical_blocks`. -/
def selectsClaudeRow (row : StoredRow) : Bool :=
  let blocks := Table.rows row.canonical.blocks
  row.agent != "codex" &&
    ((row.kind == "attachment" || row.kind == "user") ||
      (row.kind == "system" &&
        (fieldText jsonbText row.payload "subtype" == some "compact_boundary" ||
          fieldText jsonbText row.payload "subtype" == some "informational")) ||
      blocks.any (fun block => block.kind == .toolResult && block.toolOutput.isNone &&
        hasKey row.payload "toolUseResult") ||
      blocks.any (fun block => block.kind == .toolUse &&
        (block.toolNameCanonical == some "edit" || block.toolNameCanonical == some "multi_edit") &&
        block.toolInput.any fun input => !hasKey input "file_edits") ||
      blocks.any (fun block => block.kind == .toolUse && block.toolName == some "Agent" &&
        block.toolNameCanonical != some "task") ||
      (blocks.isEmpty && row.canonical.contentKind != "none"))

/-- The condition of `backfill_claude_compaction`. -/
def selectsCompactionRow (row : StoredRow) : Bool :=
  row.agent == "claude-code" &&
    (fieldText jsonbText row.payload "isCompactSummary" == some "true" ||
      fieldText jsonbText row.payload "subtype" == some "compact_boundary" ||
      (fieldText jsonbText row.payload "subtype" == some "informational" &&
        (fieldText jsonbText row.payload "content").any
          (startsWith · "Compacted while idle,"))) &&
    (!row.canonical.isMeta || row.canonical.speaker != "system" ||
      row.canonical.subtype == none || row.canonical.subtype == some "informational")

/-! ## The passes -/

/-- `rewrite_canonical_event`. -/
def rewriteCanonicalEvent (h : Helpers) (row : StoredRow) (parsed : CanonicalEvent) : StoredRow :=
  { row with canonical := canonicalRow h parsed }

/-- `repair_codex_session`. -/
def repairCodexSession (h : Helpers) (session : Uuid) :
    CodexSessionContext → List StoredRow → List StoredRow
  | _, [] => []
  | ctx, row :: rows =>
      rewriteCanonicalEvent h row
          (parseCanonicalEvent h row.agent row.payload session row.byteOffset (some ctx)) ::
        repairCodexSession h session (updateCodexContext session ctx row.payload) rows

/-- The rows of a session after `backfill_canonical_blocks`. -/
def backfillCanonicalBlocks (h : Helpers) (session : Uuid) (rows : List StoredRow) :
    List StoredRow :=
  let rows :=
    if rows.any (selectsCodexRow jsonbText) then repairCodexSession h session (.new session) rows
    else rows
  rows.map fun row =>
    if selectsClaudeRow jsonbText row then
      rewriteCanonicalEvent h row
        (parseCanonicalEvent h row.agent row.payload session row.byteOffset none)
    else row

/-- The rows of a session after `backfill_claude_compaction`. -/
def backfillClaudeCompaction (h : Helpers) (session : Uuid) (purged : Bool)
    (rows : List StoredRow) : List StoredRow :=
  rows.map fun row =>
    if !purged && selectsCompactionRow jsonbText row then
      rewriteCanonicalEvent h row
        (parseCanonicalEvent h "claude-code" row.payload session row.byteOffset none)
    else row

/-- The two passes. -/
inductive RepairPass
  | canonicalBlocks
  | claudeCompaction (purged : Bool)

def RepairPass.run (pass : RepairPass) (h : Helpers) (session : Uuid) (rows : List StoredRow) :
    List StoredRow :=
  match pass with
  | .canonicalBlocks => backfillCanonicalBlocks jsonbText h session rows
  | .claudeCompaction purged => backfillClaudeCompaction jsonbText h session purged rows

/-- Whether a pass rewrites a row of a session of one harness. -/
def RepairPass.rewrites (pass : RepairPass) (source : TranscriptSource) (rows : List StoredRow)
    (row : StoredRow) : Bool :=
  match pass, source with
  | .canonicalBlocks, .codex => rows.any (selectsCodexRow jsonbText)
  | .canonicalBlocks, .claudeCode => selectsClaudeRow jsonbText row
  | .claudeCompaction _, .codex => false
  | .claudeCompaction purged, .claudeCode => !purged && selectsCompactionRow jsonbText row

end

/-! ## One row -/

/-- What `insert_event` wrote of a parsed line is what a repair writes of it: no link was added
and no block was left out. -/
def Line.KeepsParsed (line : Line) (parsed : CanonicalEvent) : Prop :=
  (parsed.relatedToolUseId.isSome ∨ line.link = none) ∧
    (parsed.subtype = some inheritedHistory → parsed.blocks = [])

/-- Inserted blocks leave a row behind each of their ordinals. -/
theorem insertBlocks_eq_empty (blocks : List Block) : insertBlocks blocks = ∅ ↔ blocks = [] := by
  constructor
  · intro hempty
    cases blocks with
    | nil => rfl
    | cons first rest =>
        have hkept : ∀ (blocks : List Block) (rows : Table Int Block), first.ord ∈ rows →
            first.ord ∈ blocks.foldl (fun rows block => rows.insert block.ord block) rows := by
          intro blocks
          induction blocks with
          | nil => exact fun _ hmem => hmem
          | cons block blocks ih =>
              intro rows hmem
              exact ih _ (Std.ExtTreeMap.mem_insert.mpr (.inr hmem))
        have hfirst : first.ord ∈ insertBlocks (first :: rest) :=
          hkept rest _ Std.ExtTreeMap.mem_insert_self
        rw [hempty] at hfirst
        exact absurd hfirst Std.ExtTreeMap.not_mem_empty
  · rintro rfl
    rfl

theorem or_eq_self {α : Type*} (value link : Option α) :
    value = value.or link ↔ value.isSome ∨ link = none := by
  cases value with
  | some _ => simp
  | none => simp [eq_comm]

/-- A repair with the record that was inserted leaves the row as it is exactly where the insert
kept that record. -/
theorem rewriteCanonicalEvent_eq (h : Helpers) (source : TranscriptSource) (line : Line)
    (parsed : CanonicalEvent) :
    rewriteCanonicalEvent h (insertParsed h source line parsed) parsed =
      insertParsed h source line parsed ↔ line.KeepsParsed parsed := by
  have hblocks : insertBlocks parsed.blocks =
      (if parsed.subtype = some inheritedHistory then ∅ else insertBlocks parsed.blocks) ↔
        (parsed.subtype = some inheritedHistory → parsed.blocks = []) := by
    split
    · next hinherited => simp [hinherited, insertBlocks_eq_empty]
    · next hown => simp [hown]
  rw [Line.KeepsParsed, ← or_eq_self, ← hblocks]
  -- the other columns are those of the parsed record in both
  simp [rewriteCanonicalEvent, insertParsed, canonicalRow, CanonicalEvent.searchText]

/-! ## One session -/

/-- What a pass makes of a row that holds a parsed record. -/
def repairRow (h : Helpers) (rewrites : StoredRow → Bool) (row : StoredRow)
    (parsed : CanonicalEvent) : StoredRow :=
  if rewrites row then rewriteCanonicalEvent h row parsed else row

theorem repairRow_eq (h : Helpers) (rewrites : StoredRow → Bool) (source : TranscriptSource)
    (line : Line) (parsed : CanonicalEvent) :
    repairRow h rewrites (insertParsed h source line parsed) parsed =
        insertParsed h source line parsed ↔
      rewrites (insertParsed h source line parsed) = false ∨ line.KeepsParsed parsed := by
  unfold repairRow
  cases hrewrites : rewrites (insertParsed h source line parsed) with
  | false => simp
  | true => simp [rewriteCanonicalEvent_eq]

/-- The repair of a Codex session parses every record as its insert did. -/
theorem repairCodexSession_insertCodexLines (h : Helpers) (session : Uuid)
    (ctx : CodexSessionContext) (lines : List Line) :
    repairCodexSession h session ctx (insertCodexLines h session ctx lines) =
      List.zipWith
        (fun line parsed => rewriteCanonicalEvent h (insertParsed h .codex line parsed) parsed)
        lines (parseCodexLines h session ctx lines) := by
  induction lines generalizing ctx with
  | nil => rfl
  | cons line lines ih =>
      have hagent : (insertCanonicalEvent h .codex session (some ctx) line).agent = "codex" :=
        parseCanonicalEvent_agent h .codex line.payload session line.byteOffset (some ctx)
      rw [insertCodexLines, repairCodexSession, parseCodexLines, List.zipWith_cons_cons, hagent]
      congr 1
      exact ih _

variable (jsonbText : Json → String)

theorem agent_of_mem (h : Helpers) (source : TranscriptSource) (session : Uuid)
    (lines : List Line) (row : StoredRow) (hmem : row ∈ insertLines h source session lines) :
    row.agent = source.agentId := by
  cases source with
  | claudeCode =>
      obtain ⟨line, -, rfl⟩ := List.mem_map.mp hmem
      rfl
  | codex =>
      have key : ∀ (ctx : CodexSessionContext), row ∈ insertCodexLines h session ctx lines →
          row.agent = "codex" := by
        clear hmem
        induction lines with
        | nil =>
            intro ctx hmem
            cases hmem
        | cons line lines ih =>
            intro ctx hmem
            rcases List.mem_cons.mp hmem with rfl | htail
            · exact parseCanonicalEvent_agent h .codex line.payload session line.byteOffset _
            · exact ih _ htail
      exact key _ hmem

theorem repairCodexSession_agents (h : Helpers) (session : Uuid) (ctx : CodexSessionContext)
    (rows : List StoredRow) :
    (repairCodexSession h session ctx rows).map StoredRow.agent = rows.map StoredRow.agent := by
  induction rows generalizing ctx with
  | nil => rfl
  | cons row rows ih =>
      rw [repairCodexSession, List.map_cons, ih]
      rfl

theorem selectsCodexRow_agent (row : StoredRow) (hagent : row.agent ≠ "codex") :
    selectsCodexRow jsonbText row = false := by
  simp [selectsCodexRow, hagent]

theorem selectsClaudeRow_agent (row : StoredRow) (hagent : row.agent = "codex") :
    selectsClaudeRow jsonbText row = false := by
  simp [selectsClaudeRow, hagent]

theorem selectsCompactionRow_agent (row : StoredRow) (hagent : row.agent = "codex") :
    selectsCompactionRow jsonbText row = false := by
  simp [selectsCompactionRow, hagent]

/-- A repair of the rows of Claude lines one by one. -/
theorem map_claudeRows (h : Helpers) (session : Uuid) (lines : List Line)
    (rewrites : StoredRow → Bool) :
    (insertLines h .claudeCode session lines).map (fun row =>
        repairRow h rewrites row
          (parseCanonicalEvent h "claude-code" row.payload session row.byteOffset none)) =
      List.zipWith
        (fun line parsed =>
          repairRow h rewrites (insertParsed h .claudeCode line parsed) parsed)
        lines (parseLines h .claudeCode session lines) := by
  rw [insertLines, parseLines, List.map_map, List.zipWith_map_right, List.zipWith_self]
  rfl

/-- No pass takes up a Codex row by itself. -/
theorem map_codexRows (rows : List StoredRow) (hagent : ∀ row ∈ rows, row.agent = "codex")
    (rewrites : StoredRow → Bool) (rewrite : StoredRow → StoredRow)
    (hrewrites : ∀ row : StoredRow, row.agent = "codex" → rewrites row = false) :
    rows.map (fun row => if rewrites row then rewrite row else row) = rows := by
  conv_rhs => rw [← List.map_id rows]
  refine List.map_congr_left fun row hrow => ?_
  simp [hrewrites row (hagent row hrow)]

/-- **A pass over inserted rows, row by row.** -/
theorem RepairPass.run_insertLines (pass : RepairPass) (h : Helpers) (source : TranscriptSource)
    (session : Uuid) (lines : List Line) :
    pass.run jsonbText h session (insertLines h source session lines) =
      List.zipWith
        (fun line parsed =>
          repairRow h (pass.rewrites jsonbText source (insertLines h source session lines))
            (insertParsed h source line parsed) parsed)
        lines (parseLines h source session lines) := by
  have hagents := agent_of_mem h source session lines
  cases pass with
  | canonicalBlocks =>
      cases source with
      | claudeCode =>
          have hnone : (insertLines h .claudeCode session lines).any
              (selectsCodexRow jsonbText) = false := by
            rw [List.any_eq_false]
            intro row hrow
            have hcodex : row.agent ≠ "codex" := by
              rw [hagents row hrow]
              decide
            simp [selectsCodexRow_agent jsonbText row hcodex]
          rw [RepairPass.run, backfillCanonicalBlocks, hnone, ← map_claudeRows]
          refine List.map_congr_left fun row hrow => ?_
          rw [hagents row hrow]
          rfl
      | codex =>
          rw [RepairPass.run, backfillCanonicalBlocks]
          cases hany : (insertLines h .codex session lines).any (selectsCodexRow jsonbText) with
          | false =>
              rw [if_neg Bool.false_ne_true, map_codexRows _ hagents _ _
                (selectsClaudeRow_agent jsonbText)]
              simp only [RepairPass.rewrites, hany, repairRow, Bool.false_eq_true, if_false]
              exact insertLines_eq h .codex session lines
          | true =>
              have hrepaired : ∀ row ∈ repairCodexSession h session (.new session)
                  (insertLines h .codex session lines), row.agent = "codex" := by
                intro row hrow
                have hagent := List.mem_map_of_mem (f := StoredRow.agent) hrow
                rw [repairCodexSession_agents] at hagent
                obtain ⟨row', hrow', hsame⟩ := List.mem_map.mp hagent
                exact hsame.symm.trans (hagents row' hrow')
              rw [if_pos rfl, map_codexRows _ hrepaired _ _ (selectsClaudeRow_agent jsonbText)]
              rw [insertLines, repairCodexSession_insertCodexLines]
              rw [insertLines] at hany
              simp only [RepairPass.rewrites, repairRow, hany, if_true, parseLines]
  | claudeCompaction purged =>
      cases source with
      | claudeCode => exact map_claudeRows h session lines _
      | codex =>
          rw [RepairPass.run, backfillClaudeCompaction]
          rw [map_codexRows _ hagents (fun row => !purged && selectsCompactionRow jsonbText row) _
            (fun row hrow => by simp [selectsCompactionRow_agent jsonbText row hrow])]
          simp [RepairPass.rewrites, repairRow, insertLines_eq]

/-- **When a repair preserves what was ingested.** A pass leaves an inserted row exactly as it is
where it does not select the row, or where `insert_event` wrote what the parser gave: the link of
a subagent's transcript, and of an archived row, is lost otherwise. -/
theorem pass_preserves_row_iff (pass : RepairPass) (h : Helpers) (source : TranscriptSource)
    (session : Uuid) (lines : List Line) (i : Nat) (line : Line) (parsed : CanonicalEvent)
    (hline : lines[i]? = some line)
    (hparsed : (parseLines h source session lines)[i]? = some parsed) :
    let rows := insertLines h source session lines
    (pass.run jsonbText h session rows)[i]? = rows[i]? ↔
      pass.rewrites jsonbText source rows (insertParsed h source line parsed) = false ∨
        line.KeepsParsed parsed := by
  intro rows
  have hrow : rows[i]? = some (insertParsed h source line parsed) := by
    simp [rows, insertLines_eq, List.getElem?_zipWith, hline, hparsed]
  have hafter : (pass.run jsonbText h session rows)[i]? = some (repairRow h
      (pass.rewrites jsonbText source rows) (insertParsed h source line parsed) parsed) := by
    simp [rows, RepairPass.run_insertLines, List.getElem?_zipWith, hline, hparsed]
  rw [hrow, hafter, Option.some_inj]
  exact repairRow_eq h _ source line parsed

/-! ## A subagent's transcript -/

/-- A user's message, with or without the link of a subagent's transcript. -/
def userLine (link : Option String) : Line where
  byteOffset := 0
  payload := .obj [("type", .str "user"), ("message", .obj [("content", .str "go")])]
  link := link

theorem pass_preserves_row_unlinked :
    (RepairPass.canonicalBlocks.run (fun _ => "json") plainHelpers 7
        (insertLines plainHelpers .claudeCode 7 [userLine none]))[0]? =
      (insertLines plainHelpers .claudeCode 7 [userLine none])[0]? :=
  (pass_preserves_row_iff (fun _ => "json") .canonicalBlocks plainHelpers .claudeCode 7
    [userLine none] 0 (userLine none) (claudeParse plainHelpers (userLine none).payload) rfl
    rfl).mpr (.inr ⟨.inr rfl, by decide +kernel⟩)

/-- The repair of a user's message in a subagent's transcript takes its link away. -/
theorem repair_unlinks_subagent :
    ¬ ∀ (jsonbText : Json → String) (pass : RepairPass) (h : Helpers) (source : TranscriptSource)
        (session : Uuid) (lines : List Line),
        pass.run jsonbText h session (insertLines h source session lines) =
          insertLines h source session lines := by
  intro hall
  have hlinks := congrArg (List.map fun row => row.canonical.relatedToolUseId)
    (hall (fun _ => "json") .canonicalBlocks plainHelpers .claudeCode 7
      [userLine (some "toolu_1")])
  revert hlinks
  decide +kernel

end Sulion.Ingest
