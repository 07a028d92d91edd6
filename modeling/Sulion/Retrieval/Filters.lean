import Sulion.Retrieval.Store

set_option autoImplicit false

/-! # The filters of the two search engines

The conditions of `lexical_search`, `lexical_tool_search` and `lexical_digest_search`, and those of
`semantic_search`, but for the text match, the score and the limits. `filters_agree_iff` says for
which sources the two engines decide alike: a purged session has no operations and touches any more,
which only the lexical engine knows.
-/

namespace Sulion.Retrieval.Sources

/-! ## Filters -/

inductive Scope
  | repo | session | all
  deriving DecidableEq

structure SearchFilters where
  scope : Scope
  repo : Option String
  agentSessionUuid : Option SessionUuid
  includeKinds : List SourceKind
  filePath : Option String
  toolCategory : Option String
  toolName : Option String
  includeLowValue : Bool
  agent : Option String
  model : Option String
  errorsOnly : Bool
  since : Option Int
  until' : Option Int

def SourceKind.isTool : SourceKind → Bool
  | .toolCall | .toolResult | .toolError => true
  | _ => false

def SourceKind.coversDigest : SourceKind → Bool
  | .assistantText | .userPrompt | .summary | .turnDigest => true
  | _ => false

def lowValueToolNames : List String :=
  ["exec_command", "bash", "write_stdin", "apply_patch", "edit", "write", "read", "glob", "grep",
    "view_image"]

namespace SearchFilters

variable (filters : SearchFilters)

def scopedSession : Option SessionUuid :=
  if filters.scope = .session then filters.agentSessionUuid else none

def scopedRepo : Option String := if filters.scope = .repo then filters.repo else none

/-- The conditions on session, repository, agent, model and time, which are the same in all four
queries. -/
def admits (session : SessionUuid) (repoName : Option String) (cs : SessionRow)
    (timestamp : Option Int) : Bool :=
  filters.scopedSession.all (· = session) &&
    filters.scopedRepo.all (repoName = some ·) &&
    filters.agent.all (cs.agent = ·) &&
    filters.model.all (cs.model = some ·) &&
    filters.since.all (fun since => timestamp.any (since ≤ ·)) &&
    filters.until'.all (fun latest => timestamp.any (· ≤ latest))

def includedSourceKinds : List SourceKind :=
  if filters.includeKinds.any SourceKind.coversDigest && SourceKind.turnDigest ∉
    filters.includeKinds
  then filters.includeKinds ++ [.turnDigest]
  else filters.includeKinds

/-- The low-value condition, of an operation or of none. -/
def keepsTool (lower : String → String) (o : Option OperationRow) : Bool :=
  filters.includeLowValue ||
    !(decide (lower ((o.map (·.name)).getD "") ∈ lowValueToolNames) ||
      decide (lower ((o.bind (·.rawName)).getD "") ∈ lowValueToolNames) ||
      decide (lower ((o.bind (·.operationType)).getD "") ∈ lowValueToolNames))

end SearchFilters

/-! ## Lexical search -/

namespace Store

variable (store : Store)

/-- Some operation of the turn is so. -/
def turnHas (session : SessionUuid) (turnId : Option Int) (p : OperationRow → Bool) : Bool :=
  store.operations.toList.any fun row =>
    decide (row.1.1 = session) && decide (turnId = some row.1.2.1) && p row.2

/-- The turn touches the path. -/
def touched (session : SessionUuid) (turnId : Option Int) (path : String) : Bool :=
  store.touches.toList.any fun row =>
    decide (row.1.1 = session) && decide (turnId = some row.1.2.1) && decide (row.2 = path)

/-- The conditions on the operations and touches of the turn. -/
def turnAdmits (filters : SearchFilters) (session : SessionUuid) (turnId : Option Int) : Bool :=
  (!filters.errorsOnly || store.turnHas session turnId (·.failed)) &&
    filters.filePath.all (store.touched session turnId ·) &&
    filters.toolCategory.all (fun category =>
      store.turnHas session turnId (·.operationCategory = some category)) &&
    filters.toolName.all (fun name => store.turnHas session turnId (·.name = name))

/-- The conditions on a tool operation, and on the touches of its turn. -/
def operationAdmits (filters : SearchFilters) (session : SessionUuid) (turnId : Option Int)
    (o : Option OperationRow) : Bool :=
  (!filters.errorsOnly || o.any (·.failed)) &&
    filters.filePath.all (store.touched session turnId ·) &&
    filters.toolCategory.all (fun category => o.bind (·.operationCategory) = some category) &&
    filters.toolName.all (fun name => o.map (·.name) = some name)

/-- A row of an engine's query. -/
structure Row where
  columns : Columns
  session : SessionUuid
  byteOffset : Option Int
  blockOrd : Option Int
  timestamp : Option Int
  text : String

/-- A block as `lexical_search` reads it. -/
def lexicalBlock (filters : SearchFilters) (session : SessionUuid) (byteOffset blockOrd : Int) :
    Option Row := do
  let block ← store.blocks[(session, byteOffset, blockOrd)]?
  let event ← store.events[(session, byteOffset)]?
  let cs ← store.sessions[session]?
  guard (block.kind = .text)
  let text ← block.text
  guard (filters.admits session cs.repoName cs (some event.timestamp))
  let kind ← eventKind event.speaker block
  let turnId := store.turnAt session event.timestamp
  guard (kind ∈ filters.includeKinds)
  guard (store.turnAdmits filters session turnId)
  some
    { columns := ⟨kind, turnId, none, cs.repoName⟩
      session := session
      byteOffset := some byteOffset
      blockOrd := some blockOrd
      timestamp := some event.timestamp
      text := text }

/-- What both halves of `tool_sources` have in common, in `lexical_tool_search`. -/
def lexicalTool (lower : String → String) (filters : SearchFilters) (session : SessionUuid)
    (turnId operationOrd : Int) (o : OperationRow) (kind : SourceKind) (text : String) :
    Option Row := do
  let turn ← store.turns[(session, turnId)]?
  let cs ← store.sessions[session]?
  guard (sqlNonblank text)
  guard (kind ∈ filters.includeKinds.filter SourceKind.isTool)
  guard (filters.admits session cs.repoName cs (some turn.endTimestamp))
  guard (store.operationAdmits filters session (some turnId) (some o))
  guard (filters.keepsTool lower (some o))
  some
    { columns := ⟨kind, some turnId, some operationOrd, cs.repoName⟩
      session := session
      byteOffset := none
      blockOrd := none
      timestamp := some turn.endTimestamp
      text := text }

def lexicalCall (lower : String → String) (filters : SearchFilters) (session : SessionUuid)
    (turnId operationOrd : Int) : Option Row := do
  let o ← store.operations[(session, turnId, operationOrd)]?
  guard o.input.isSome
  store.lexicalTool lower filters session turnId operationOrd o .toolCall (o.callText o.input)

def lexicalResult (lower : String → String) (filters : SearchFilters) (session : SessionUuid)
    (turnId operationOrd : Int) : Option Row := do
  let o ← store.operations[(session, turnId, operationOrd)]?
  guard o.hasResult
  store.lexicalTool lower filters session turnId operationOrd o o.resultKind o.resultText

/-- A turn as `lexical_digest_search` reads it, which is called for kinds that cover digests. -/
def lexicalDigest (filters : SearchFilters) (session : SessionUuid) (turnId : Int) :
    Option Row := do
  let turn ← store.turns[(session, turnId)]?
  let cs ← store.sessions[session]?
  guard (filters.includeKinds.any SourceKind.coversDigest)
  guard cs.purged
  guard (turn.markdown.utf8ByteSize ≤ 1000000)
  guard (filters.admits session cs.repoName cs (some turn.endTimestamp))
  guard (!filters.errorsOnly || turn.hasErrors)
  guard (filters.filePath.all (· ∈ turn.files))
  some
    { columns := ⟨.turnDigest, some turnId, none, cs.repoName⟩
      session := session
      byteOffset := none
      blockOrd := none
      timestamp := some turn.endTimestamp
      text := turn.markdown }

/-- The row that the lexical queries have for a source. -/
def lexicalRow (lower : String → String) (filters : SearchFilters) : SourceKey → Option Row
  | .event session byteOffset blockOrd => store.lexicalBlock filters session byteOffset blockOrd
  | .operation session turnId operationOrd false =>
      store.lexicalCall lower filters session turnId operationOrd
  | .operation session turnId operationOrd true =>
      store.lexicalResult lower filters session turnId operationOrd
  | .turn session turnId => store.lexicalDigest filters session turnId

/-! ## Semantic search -/

/-- The event that the key of an embedding names. -/
def eventOf : SourceKey → Option EventRow
  | .event session byteOffset _ => store.events[(session, byteOffset)]?
  | _ => none

def blockOf : SourceKey → Option BlockRow
  | .event session byteOffset blockOrd => store.blocks[(session, byteOffset, blockOrd)]?
  | _ => none

/-- The operation that the columns of an embedding name. -/
def operationOf (session : SessionUuid) (e : Columns) : Option OperationRow := do
  let turnId ← e.turnId
  let operationOrd ← e.operationOrd
  store.operations[(session, turnId, operationOrd)]?

/-- The text a semantic result is shown with. -/
def semanticText (key : SourceKey) (e : Columns) (o : Option OperationRow) (turn : Option TurnRow) :
    Option String :=
  match e.sourceKind with
  | .toolCall => some ((o.map fun o => o.callText o.input).getD "")
  | .toolResult | .toolError => some ((o.map (·.resultText)).getD "")
  | .turnDigest => turn.map (·.markdown)
  | _ => (store.blockOf key).bind (·.text)

/-- An embedding as `semantic_search` reads it. -/
def semanticRow (lower : String → String) (filters : SearchFilters) (key : SourceKey)
    (e : Columns) : Option Row := do
  let o := store.operationOf key.session e
  let turn := e.turnId.bind fun turnId => store.turns[(key.session, turnId)]?
  let event := store.eventOf key
  let timestamp := (event.map (·.timestamp)).or (turn.map (·.endTimestamp))
  guard (e.sourceKind ∈ filters.includedSourceKinds)
  guard (!e.sourceKind.isTool || filters.keepsTool lower o)
  let cs ← store.sessions[key.session]?
  guard (filters.admits key.session e.repoName cs timestamp)
  guard (if e.sourceKind.isTool then store.operationAdmits filters key.session e.turnId o
    else store.turnAdmits filters key.session e.turnId)
  some
    { columns := e
      session := key.session
      byteOffset := match key with | .event _ byteOffset _ => some byteOffset | _ => none
      blockOrd := match key with | .event _ _ blockOrd => some blockOrd | _ => none
      timestamp := timestamp
      text := (store.semanticText key e o turn).getD "" }

end Store

/-! ## Where the engines agree -/

/-- A store whose foreign keys hold, and in which purged sessions have lost what a purge deletes. -/
structure KeptStore extends Store where
  turn_of_operation : ∀ (session : SessionUuid) (turnId operationOrd : Int) (o : OperationRow),
    operations[(session, turnId, operationOrd)]? = some o →
      ∃ turn, turns[(session, turnId)]? = some turn
  purged_operations : ∀ (session : SessionUuid) (cs : SessionRow),
    sessions[session]? = some cs → cs.purged = true →
      ∀ turnId operationOrd : Int, operations[(session, turnId, operationOrd)]? = none
  purged_touches : ∀ (session : SessionUuid) (cs : SessionRow),
    sessions[session]? = some cs → cs.purged = true →
      ∀ turnId touchOrd : Int, touches[(session, turnId, touchOrd)]? = none

/-- The source is one of those that the lexical engine reads too: not the error of a tool that an
event's block has. -/
def Store.Searchable (store : Store) : SourceKey → Prop
  | .event session byteOffset blockOrd =>
      ∀ block, store.blocks[(session, byteOffset, blockOrd)]? = some block → block.kind = .text
  | _ => True

/-- Some filter reads the operations or touches of turns. -/
def SearchFilters.readsTurns (filters : SearchFilters) : Bool :=
  filters.errorsOnly || filters.filePath.isSome || filters.toolCategory.isSome ||
    filters.toolName.isSome

/-- What the lexical engine asks of the digest itself. -/
def TurnRow.digestAdmits (turn : TurnRow) (filters : SearchFilters) : Bool :=
  decide (turn.markdown.utf8ByteSize ≤ 1000000) && (!filters.errorsOnly || turn.hasErrors) &&
    filters.filePath.all (· ∈ turn.files)

/-- A digest is decided alike when other filters exclude it, or when no filter reads operations or
touches and it is not too long for the lexical engine, or when that engine excludes it too. -/
def Store.DecidedAlike (store : Store) (filters : SearchFilters) : SourceKey → Prop
  | .turn session turnId =>
      ∀ turn cs, store.turns[(session, turnId)]? = some turn →
        store.sessions[session]? = some cs →
        filters.includeKinds.any SourceKind.coversDigest = true →
        filters.admits session cs.repoName cs (some turn.endTimestamp) = true →
          (filters.readsTurns = true ↔ turn.digestAdmits filters = false)
  | _ => True

section Proofs

variable {lower : String → String} {filters : SearchFilters} {store : KeptStore}
  {source : EmbeddingSource}

theorem turnHas_purged {session : SessionUuid} {cs : SessionRow}
    (hcs : store.sessions[session]? = some cs) (hpurged : cs.purged = true) (turnId : Option Int)
    (p : OperationRow → Bool) : store.turnHas session turnId p = false := by
  refine List.any_eq_false.mpr fun row hrow hp => ?_
  simp only [Bool.and_eq_true, decide_eq_true_eq] at hp
  have hlookup := Std.ExtTreeMap.mem_toList_iff_getElem?_eq_some.mp hrow
  have hnone := store.purged_operations session cs hcs hpurged row.1.2.1 row.1.2.2
  rw [← hp.1.1] at hnone
  exact absurd (hlookup.symm.trans hnone) (by simp)

theorem touched_purged {session : SessionUuid} {cs : SessionRow}
    (hcs : store.sessions[session]? = some cs) (hpurged : cs.purged = true) (turnId : Option Int)
    (path : String) : store.touched session turnId path = false := by
  refine List.any_eq_false.mpr fun row hrow hp => ?_
  simp only [Bool.and_eq_true, decide_eq_true_eq] at hp
  have hlookup := Std.ExtTreeMap.mem_toList_iff_getElem?_eq_some.mp hrow
  have hnone := store.purged_touches session cs hcs hpurged row.1.2.1 row.1.2.2
  rw [← hp.1.1] at hnone
  exact absurd (hlookup.symm.trans hnone) (by simp)

/-- Of a purged session's turns every filter that reads operations or touches is false. -/
theorem turnAdmits_purged {session : SessionUuid} {cs : SessionRow}
    (hcs : store.sessions[session]? = some cs) (hpurged : cs.purged = true)
    (turnId : Option Int) :
    store.turnAdmits filters session turnId = !filters.readsTurns := by
  unfold Store.turnAdmits SearchFilters.readsTurns
  simp only [turnHas_purged hcs hpurged, touched_purged hcs hpurged]
  cases filters.errorsOnly <;> cases filters.filePath <;> cases filters.toolCategory <;>
    cases filters.toolName <;> rfl

theorem turnDigest_mem_included :
    SourceKind.turnDigest ∈ filters.includedSourceKinds ↔
      filters.includeKinds.any SourceKind.coversDigest = true := by
  unfold SearchFilters.includedSourceKinds
  split
  · rename_i h
    simp only [Bool.and_eq_true] at h
    exact ⟨fun _ => h.1, fun _ => List.mem_append_right _ (List.mem_singleton.mpr rfl)⟩
  · rename_i h
    simp only [Bool.and_eq_true, decide_eq_true_eq, not_and, not_not] at h
    exact ⟨fun hmem => List.any_eq_true.mpr ⟨_, hmem, rfl⟩, h⟩

/-- Of the other kinds the semantic engine includes those that are asked for. -/
theorem mem_included {kind : SourceKind} (hkind : kind ≠ .turnDigest) :
    kind ∈ filters.includedSourceKinds ↔ kind ∈ filters.includeKinds := by
  unfold SearchFilters.includedSourceKinds
  split
  · simp [hkind]
  · rfl

theorem isSome_guard {p : Prop} [Decidable p] {α : Type} (x : Option α) :
    ((guard p : Option Unit).bind fun _ => x).isSome = (decide p && x.isSome) := by
  by_cases hp : p <;> simp [guard, hp]

/-- A block of text: both engines ask for its kind and for what its turn has. -/
theorem block_agrees {session : SessionUuid} {byteOffset blockOrd : Int}
    (hsource : store.eventSource session byteOffset blockOrd = some source)
    (hsearchable : store.Searchable (.event session byteOffset blockOrd)) :
    (store.lexicalBlock filters session byteOffset blockOrd).isSome =
      (store.semanticRow lower filters (.event session byteOffset blockOrd)
        source.toColumns).isSome := by
  simp only [Store.eventSource, Option.bind_eq_bind, Option.bind_eq_some_iff,
    Option.some.injEq] at hsource
  obtain ⟨block, hblock, event, hevent, cs, hcs, text, htext, _, _, kind, hkind, rfl⟩ := hsource
  have htextKind : block.kind = .text := hsearchable block hblock
  have hplain : kind ≠ .turnDigest ∧ kind.isTool = false := by
    unfold eventKind at hkind
    rw [htextKind] at hkind
    split at hkind <;> first | cases hkind <;> exact ⟨by decide, rfl⟩ | simp_all
  have hinclude : decide (kind ∈ filters.includedSourceKinds) =
      decide (kind ∈ filters.includeKinds) := decide_eq_decide.mpr (mem_included hplain.1)
  have hlexical : (store.lexicalBlock filters session byteOffset blockOrd).isSome =
      (filters.admits session cs.repoName cs (some event.timestamp) &&
        (decide (kind ∈ filters.includeKinds) &&
          store.turnAdmits filters session (store.turnAt session event.timestamp))) := by
    simp only [Store.lexicalBlock, hblock, hevent, hcs, htext, hkind, htextKind,
      Option.bind_eq_bind, Option.bind_some, isSome_guard, decide_true, Bool.true_and,
      Bool.decide_eq_true, Option.isSome_some, Bool.and_true]
  have hsemantic : (store.semanticRow lower filters (.event session byteOffset blockOrd)
      { sourceKind := kind, turnId := store.turnAt session event.timestamp, operationOrd := none,
        repoName := cs.repoName }).isSome =
      (decide (kind ∈ filters.includedSourceKinds) &&
        (filters.admits session cs.repoName cs (some event.timestamp) &&
          store.turnAdmits filters session (store.turnAt session event.timestamp))) := by
    simp only [Store.semanticRow, Store.eventOf, SourceKey.session, hevent, hcs, hplain.2,
      Option.bind_eq_bind, Option.bind_some, isSome_guard, decide_true, Bool.true_and,
      Bool.decide_eq_true, Option.isSome_some, Bool.and_true, Bool.not_false, Bool.true_or,
      Option.map_some, Option.some_or, Bool.false_eq_true, if_false]
  rw [hlexical, hsemantic, hinclude]
  exact Bool.and_left_comm _ _ _

/-- A call or a result of an operation. -/
theorem tool_agrees {session : SessionUuid} {turnId operationOrd : Int} {o : OperationRow}
    {cs : SessionRow} {kind : SourceKind} {text : String} {result : Bool}
    (ho : store.operations[(session, turnId, operationOrd)]? = some o)
    (hcs : store.sessions[session]? = some cs) (hkind : kind.isTool = true)
    (htext : sqlNonblank text = true) :
    (store.lexicalTool lower filters session turnId operationOrd o kind text).isSome =
      (store.semanticRow lower filters (.operation session turnId operationOrd result)
        ⟨kind, some turnId, some operationOrd, cs.repoName⟩).isSome := by
  obtain ⟨turn, hturn⟩ := store.turn_of_operation session turnId operationOrd o ho
  have hinclude : decide (kind ∈ filters.includedSourceKinds) =
      decide (kind ∈ filters.includeKinds.filter SourceKind.isTool) := by
    refine decide_eq_decide.mpr ((mem_included ?_).trans ?_)
    · rintro rfl
      cases hkind
    · rw [List.mem_filter, and_iff_left hkind]
  have hlexical : (store.lexicalTool lower filters session turnId operationOrd o kind text).isSome =
      (decide (kind ∈ filters.includeKinds.filter SourceKind.isTool) &&
        (filters.admits session cs.repoName cs (some turn.endTimestamp) &&
          (store.operationAdmits filters session (some turnId) (some o) &&
            filters.keepsTool lower (some o)))) := by
    simp only [Store.lexicalTool, hturn, hcs, htext, Option.bind_eq_bind, Option.bind_some,
      isSome_guard, decide_true, Bool.true_and, Bool.decide_eq_true, Option.isSome_some,
      Bool.and_true]
  have hsemantic : (store.semanticRow lower filters (.operation session turnId operationOrd result)
      ⟨kind, some turnId, some operationOrd, cs.repoName⟩).isSome =
      (decide (kind ∈ filters.includedSourceKinds) && (filters.keepsTool lower (some o) &&
        (filters.admits session cs.repoName cs (some turn.endTimestamp) &&
          store.operationAdmits filters session (some turnId) (some o)))) := by
    simp only [Store.semanticRow, Store.eventOf, Store.operationOf, SourceKey.session, ho, hturn,
      hcs, hkind, Option.bind_eq_bind, Option.bind_some, isSome_guard, Bool.decide_eq_true,
      Option.isSome_some, Bool.and_true, Bool.not_true, Bool.false_or, Option.map_some,
      Option.map_none, Option.none_or, if_true]
  rw [hlexical, hsemantic, hinclude]
  congr 1
  rw [← Bool.and_assoc, Bool.and_comm]

theorem operation_agrees {session : SessionUuid} {turnId operationOrd : Int} {result : Bool}
    (hsource : store.currentSource (.operation session turnId operationOrd result) = some source) :
    (store.lexicalRow lower filters (.operation session turnId operationOrd result)).isSome =
      (store.semanticRow lower filters (.operation session turnId operationOrd result)
        source.toColumns).isSome := by
  cases result with
  | false =>
      simp only [Store.currentSource, Store.callSource, Option.bind_eq_bind,
        Option.bind_eq_some_iff, Option.some.injEq] at hsource
      obtain ⟨o, ho, cs, hcs, input, hinput, _, hguard, rfl⟩ := hsource
      have htext : sqlNonblank (o.callText o.input) = true := by
        rw [hinput]
        simpa [guard] using hguard
      rw [← tool_agrees ho hcs rfl htext]
      simp [Store.lexicalRow, Store.lexicalCall, ho, hinput, guard]
  | true =>
      simp only [Store.currentSource, Store.resultSource, Option.bind_eq_bind,
        Option.bind_eq_some_iff, Option.some.injEq] at hsource
      obtain ⟨o, ho, cs, hcs, _, hguard, rfl⟩ := hsource
      have hok : o.hasResult = true ∧ sqlNonblank o.resultText = true := by
        have := (Option.guard_eq_some' _).mp hguard
        simp only [Bool.and_eq_true] at this
        exact this.1
      have hkind : o.resultKind.isTool = true := by
        unfold OperationRow.resultKind
        split <;> rfl
      rw [← tool_agrees ho hcs hkind hok.2]
      simp [Store.lexicalRow, Store.lexicalResult, ho, hok.1, guard]

theorem digest_agrees_iff {session : SessionUuid} {turnId : Int}
    (hsource : store.digestSource session turnId = some source) :
    (store.lexicalDigest filters session turnId).isSome =
        (store.semanticRow lower filters (.turn session turnId) source.toColumns).isSome ↔
      store.DecidedAlike filters (.turn session turnId) := by
  simp only [Store.digestSource, Option.bind_eq_bind, Option.bind_eq_some_iff,
    Option.some.injEq] at hsource
  obtain ⟨turn, hturn, cs, hcs, _, hguard, rfl⟩ := hsource
  have hpurged : cs.purged = true := by
    have := (Option.guard_eq_some' _).mp hguard
    simp only [Bool.and_eq_true] at this
    exact this.1
  have hlexical : (store.lexicalDigest filters session turnId).isSome =
      (filters.includeKinds.any SourceKind.coversDigest &&
        filters.admits session cs.repoName cs (some turn.endTimestamp) &&
        turn.digestAdmits filters) := by
    simp only [Store.lexicalDigest, hturn, hcs, hpurged, Option.bind_eq_bind, Option.bind_some,
      isSome_guard, decide_true, Bool.true_and, Bool.decide_eq_true, Option.isSome_some,
      Bool.and_true, TurnRow.digestAdmits]
    cases filters.includeKinds.any SourceKind.coversDigest <;>
      cases filters.admits session cs.repoName cs (some turn.endTimestamp) <;>
      cases decide (turn.markdown.utf8ByteSize ≤ 1000000) <;> simp
  have hsemantic : (store.semanticRow lower filters (.turn session turnId)
      ⟨.turnDigest, some turnId, none, cs.repoName⟩).isSome =
      (filters.includeKinds.any SourceKind.coversDigest &&
        filters.admits session cs.repoName cs (some turn.endTimestamp) &&
        !filters.readsTurns) := by
    have hinclude : decide (SourceKind.turnDigest ∈ filters.includedSourceKinds) =
        filters.includeKinds.any SourceKind.coversDigest := by
      rw [Bool.eq_iff_iff, decide_eq_true_iff]
      exact turnDigest_mem_included
    simp only [Store.semanticRow, Store.eventOf, SourceKey.session, hturn, hcs,
      SourceKind.isTool, Option.bind_eq_bind, Option.bind_some, isSome_guard, decide_true,
      Bool.true_and, Bool.decide_eq_true, Option.isSome_some, Bool.and_true, Bool.not_false,
      Bool.true_or, Option.map_some, Option.map_none, Option.none_or, Bool.false_eq_true,
      if_false, hinclude, turnAdmits_purged hcs hpurged, Bool.and_assoc]
  rw [hlexical, hsemantic]
  constructor
  · intro heq turn' cs' hturn' hcs' hinclude hadmits
    rw [hturn] at hturn'
    rw [hcs] at hcs'
    cases hturn'
    cases hcs'
    rw [hinclude, hadmits, Bool.true_and, Bool.true_and] at heq
    rw [heq]
    cases filters.readsTurns <;> simp
  · intro halike
    by_cases hboth : (filters.includeKinds.any SourceKind.coversDigest &&
        filters.admits session cs.repoName cs (some turn.endTimestamp)) = true
    · have hiff := halike turn cs hturn hcs (Bool.and_eq_true _ _ ▸ hboth).1
        (Bool.and_eq_true _ _ ▸ hboth).2
      rw [hboth, Bool.true_and, Bool.true_and]
      cases hreads : filters.readsTurns <;> cases hdigest : turn.digestAdmits filters <;>
        simp_all
    · rw [Bool.not_eq_true] at hboth
      rw [hboth, Bool.false_and, Bool.false_and]

end Proofs

/-- **The engines decide alike** about a source that both read, unless it is a digest and a filter
reads operations or touches, which the purge has deleted, or its markdown is too long for the
lexical engine. -/
theorem filters_agree_iff (lower : String → String) (filters : SearchFilters) (store : KeptStore)
    (key : SourceKey) (source : EmbeddingSource) (hsource : store.currentSource key = some source)
    (hsearchable : store.Searchable key) :
    ((store.lexicalRow lower filters key).isSome ↔
        (store.semanticRow lower filters key source.toColumns).isSome) ↔
      store.DecidedAlike filters key := by
  rw [← Bool.eq_iff_iff]
  cases key with
  | event session byteOffset blockOrd =>
      exact iff_of_true (block_agrees hsource hsearchable) trivial
  | operation session turnId operationOrd result =>
      exact iff_of_true (operation_agrees hsource) trivial
  | turn session turnId => exact digest_agrees_iff hsource

/-! ## One turn, live and purged -/

/-- One session with one turn, of one message, and nothing else. -/
def oneTurn (purged : Bool) : KeptStore where
  sessions := (∅ : Table SessionUuid SessionRow).insert 1 ⟨"codex", purged, none, none, none⟩
  events := if purged then ∅ else
    (∅ : Table (SessionUuid × Int) EventRow).insert (1, 40) ⟨some .assistant, 5⟩
  blocks := if purged then ∅ else
    (∅ : Table (SessionUuid × Int × Int) BlockRow).insert (1, 40, 0) ⟨.text, some "fixed", none⟩
  turns := (∅ : Table (SessionUuid × Int) TurnRow).insert (1, 7)
    ⟨0, 9, 9, true, "fix it", some "fix it", []⟩
  operations := ∅
  touches := ∅
  turn_of_operation session turnId operationOrd o ho := by simp at ho
  purged_operations session cs _ _ turnId operationOrd := by simp
  purged_touches session cs _ _ turnId touchOrd := by simp

/-- A search for what the assistant said, in turns with errors only. -/
def errorsFilter : SearchFilters :=
  { scope := .all, repo := none, agentSessionUuid := none, includeKinds := [.assistantText]
    filePath := none, toolCategory := none, toolName := none, includeLowValue := false
    agent := none, model := none, errorsOnly := true, since := none, until' := none }

theorem filters_agree_block :
    ((oneTurn false).lexicalRow id errorsFilter (.event 1 40 0)).isSome = false ∧
      ((((oneTurn false).lexicalRow id errorsFilter (.event 1 40 0)).isSome ↔
          ((oneTurn false).semanticRow id errorsFilter (.event 1 40 0)
            ⟨.assistantText, some 7, none, none⟩).isSome) ↔
        (oneTurn false).DecidedAlike errorsFilter (.event 1 40 0)) := by
  refine ⟨by decide +kernel, ?_⟩
  exact filters_agree_iff id errorsFilter (oneTurn false) (.event 1 40 0)
    ⟨⟨.assistantText, some 7, none, none⟩, .event 1 40 0, "fixed"⟩
      (by decide +kernel) fun block h =>
      (Option.some.inj (h.symm.trans (by decide +kernel :
        (oneTurn false).blocks[((1, 40, 0) : SessionUuid × Int × Int)]? =
          some ⟨.text, some "fixed", none⟩))) ▸ rfl

/-- The digest of a turn with errors: the lexical engine finds it, the semantic engine does not. -/
theorem digest_errors_differ :
    ¬ ∀ (lower : String → String) (filters : SearchFilters) (store : KeptStore) (key : SourceKey)
        (source : EmbeddingSource), store.currentSource key = some source →
      store.Searchable key →
        ((store.lexicalRow lower filters key).isSome ↔
          (store.semanticRow lower filters key source.toColumns).isSome) := by
  intro hagree
  have h := hagree id errorsFilter (oneTurn true) (.turn 1 7)
    ⟨⟨.turnDigest, some 7, none, none⟩, .turn 1 7, "fix it"⟩ (by decide +kernel) trivial
  have hlexical : ((oneTurn true).lexicalRow id errorsFilter (.turn 1 7)).isSome = true := by
    decide +kernel
  have hsemantic : ((oneTurn true).semanticRow id errorsFilter (.turn 1 7)
      ⟨.turnDigest, some 7, none, none⟩).isSome = false := by decide +kernel
  rw [hlexical, hsemantic] at h
  exact absurd (h.mp rfl) nofun

end Sulion.Retrieval.Sources
