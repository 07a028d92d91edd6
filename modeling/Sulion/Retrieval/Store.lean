import Mathlib.Data.Prod.Lex
import Sulion.RepoLifecycle
import Sulion.Retrieval.EmbeddingIndex

set_option autoImplicit false

/-! # What search reads

The transcript and timeline tables of the retrieval service, and the sources of the semantic index
that they yield: text blocks and tool errors of events, calls and results of operations, and the
digests of purged sessions. JSON columns are their texts, and of `files_json` only the paths are
kept.
-/

namespace Sulion.Retrieval.Sources

open Rust Timeline Ingest

/-! ## Tables -/

/-- A row of `claude_sessions`, with what is joined to it. -/
structure SessionRow where
  agent : String
  purged : Bool
  /-- The repository of its PTY. -/
  ptyRepo : Option String
  cwd : Option String
  model : Option String
  deriving DecidableEq

structure EventRow where
  speaker : Option Speaker
  timestamp : Int
  deriving DecidableEq

structure BlockRow where
  kind : BlockKind
  text : Option String
  isError : Option Bool
  deriving DecidableEq

structure OperationRow where
  name : String
  rawName : Option String
  operationType : Option String
  operationCategory : Option String
  input : Option String
  resultContent : Option String
  resultPayload : Option String
  isError : Bool
  resultIsError : Bool
  deriving DecidableEq

structure TurnRow where
  startTimestamp : Int
  endTimestamp : Int
  durationMs : Int
  hasErrors : Bool
  markdown : String
  userPromptText : Option String
  files : List String
  deriving DecidableEq

instance : Std.TransOrd (SessionUuid × Int × Int) := Std.instTransOrdProd

/-- The tables by their primary keys; `touches` has the paths of `timeline_file_touches`. -/
structure Store where
  sessions : Table SessionUuid SessionRow
  events : Table (SessionUuid × Int) EventRow
  blocks : Table (SessionUuid × Int × Int) BlockRow
  turns : Table (SessionUuid × Int) TurnRow
  operations : Table (SessionUuid × Int × Int) OperationRow
  touches : Table (SessionUuid × Int × Int) String

/-! ## Expressions of the queries -/

/-- `length(trim(text)) > 0`, which trims spaces only. -/
def sqlNonblank (text : String) : Bool := text.toList.any (· ≠ ' ')

/-- `concat_ws(' ', …)`. -/
def concatWs (parts : List (Option String)) : String := String.intercalate " " (parts.filterMap id)

/-- The repository that a session's sources are stored under. -/
def SessionRow.repoName (session : SessionRow) : Option String :=
  session.ptyRepo.or (session.cwd.bind RepoLifecycle.inferRepo)

/-- The turn of an event: the shortest that covers its time. -/
def Store.turnAt (store : Store) (session : SessionUuid) (timestamp : Int) : Option Int :=
  let covering := store.turns.toList.filter fun ((uuid, _), turn) =>
    uuid = session ∧ turn.startTimestamp ≤ timestamp ∧ timestamp ≤ turn.endTimestamp
  (covering.map fun ((_, turnId), turn) => toLex (turn.durationMs, turnId)).min?.map
    fun shortest => (ofLex shortest).2

/-! ## Sources -/

inductive SourceKind
  | assistantText | userPrompt | summary | toolCall | toolResult | toolError | turnDigest
  deriving DecidableEq, Repr

inductive SourceFamily
  | eventBlock | operationCall | operationResult | turnDigest
  deriving DecidableEq, Repr

def family : SourceKey → SourceFamily
  | .event .. => .eventBlock
  | .operation _ _ _ false => .operationCall
  | .operation _ _ _ true => .operationResult
  | .turn .. => .turnDigest

/-- The columns that embeddings copy from their source. -/
structure Columns where
  sourceKind : SourceKind
  turnId : Option Int
  operationOrd : Option Int
  repoName : Option String
  deriving DecidableEq

structure EmbeddingSource extends Columns where
  sourceKey : SourceKey
  text : String
  deriving DecidableEq

/-- The kind of a block's source; `none` where the block has none. -/
def eventKind (speaker : Option Speaker) (block : BlockRow) : Option SourceKind :=
  match speaker, block.kind with
  | some .assistant, .text => some .assistantText
  | some .user, .text => some .userPrompt
  | some .summary, .text => some .summary
  | _, .toolResult => if block.isError.getD false then some .toolError else none
  | _, _ => none

def OperationRow.failed (o : OperationRow) : Bool := o.resultIsError || o.isError

def OperationRow.callText (o : OperationRow) (input : Option String) : String :=
  concatWs [some o.name, o.rawName, o.operationType, o.operationCategory, input]

def OperationRow.resultText (o : OperationRow) : String :=
  concatWs [some o.name, o.resultContent, o.resultPayload]

def OperationRow.hasResult (o : OperationRow) : Bool :=
  o.resultContent.isSome || o.resultPayload.isSome || o.failed

def OperationRow.resultKind (o : OperationRow) : SourceKind :=
  if o.failed then .toolError else .toolResult

namespace Store

variable (store : Store)

/-- `load_current_event_source`. -/
def eventSource (session : SessionUuid) (byteOffset blockOrd : Int) : Option EmbeddingSource := do
  let block ← store.blocks[(session, byteOffset, blockOrd)]?
  let event ← store.events[(session, byteOffset)]?
  let cs ← store.sessions[session]?
  let text ← block.text
  guard (sqlNonblank text)
  let kind ← eventKind event.speaker block
  some
    { sourceKind := kind
      sourceKey := .event session byteOffset blockOrd
      turnId := store.turnAt session event.timestamp
      operationOrd := none
      repoName := cs.repoName
      text := if block.kind = .toolResult then takeChars text 1000 else text }

/-- `load_current_operation_source` of a call. -/
def callSource (session : SessionUuid) (turnId operationOrd : Int) : Option EmbeddingSource := do
  let o ← store.operations[(session, turnId, operationOrd)]?
  let cs ← store.sessions[session]?
  let input ← o.input
  guard (sqlNonblank (o.callText (some input)))
  some
    { sourceKind := .toolCall
      sourceKey := .operation session turnId operationOrd false
      turnId := some turnId
      operationOrd := some operationOrd
      repoName := cs.repoName
      text := o.callText (some (takeChars input 300)) }

/-- `load_current_operation_source` of a result. -/
def resultSource (session : SessionUuid) (turnId operationOrd : Int) : Option EmbeddingSource := do
  let o ← store.operations[(session, turnId, operationOrd)]?
  let cs ← store.sessions[session]?
  guard (o.hasResult && sqlNonblank o.resultText && (o.failed || o.name = "agent"))
  some
    { sourceKind := o.resultKind
      sourceKey := .operation session turnId operationOrd true
      turnId := some turnId
      operationOrd := some operationOrd
      repoName := cs.repoName
      text := if o.failed then takeChars o.resultText 1000 else o.resultText }

/-- `load_current_digest_source`. -/
def digestSource (session : SessionUuid) (turnId : Int) : Option EmbeddingSource := do
  let turn ← store.turns[(session, turnId)]?
  let cs ← store.sessions[session]?
  guard (cs.purged && sqlNonblank turn.markdown)
  some
    { sourceKind := .turnDigest
      sourceKey := .turn session turnId
      turnId := some turnId
      operationOrd := none
      repoName := cs.repoName
      text := turn.markdown }

/-- `load_current_source`: what the source with this key is now, if it is any. -/
def currentSource : SourceKey → Option EmbeddingSource
  | .event session byteOffset blockOrd => store.eventSource session byteOffset blockOrd
  | .operation session turnId operationOrd false => store.callSource session turnId operationOrd
  | .operation session turnId operationOrd true => store.resultSource session turnId operationOrd
  | .turn session turnId => store.digestSource session turnId

/-- The keys of a family that have a row in its table. -/
def keys : SourceFamily → List SourceKey
  | .eventBlock => store.blocks.toList.map fun row => .event row.1.1 row.1.2.1 row.1.2.2
  | .operationCall =>
      store.operations.toList.map fun row => .operation row.1.1 row.1.2.1 row.1.2.2 false
  | .operationResult =>
      store.operations.toList.map fun row => .operation row.1.1 row.1.2.1 row.1.2.2 true
  | .turnDigest => store.turns.toList.map fun row => .turn row.1.1 row.1.2

/-- The sources of a family, in no order yet. -/
def familySources (f : SourceFamily) : List EmbeddingSource :=
  (store.keys f).filterMap store.currentSource

variable {store} {source : EmbeddingSource} {key : SourceKey} {f : SourceFamily}

theorem sourceKey_of_currentSource (h : store.currentSource key = some source) :
    source.sourceKey = key := by
  cases key with
  | event session byteOffset blockOrd =>
      simp only [currentSource, eventSource, Option.bind_eq_bind, Option.bind_eq_some_iff,
        Option.some.injEq] at h
      obtain ⟨_, _, _, _, _, _, _, _, _, _, _, _, rfl⟩ := h
      rfl
  | operation session turnId operationOrd result =>
      cases result with
      | false =>
          simp only [currentSource, callSource, Option.bind_eq_bind, Option.bind_eq_some_iff,
            Option.some.injEq] at h
          obtain ⟨_, _, _, _, _, _, _, _, rfl⟩ := h
          rfl
      | true =>
          simp only [currentSource, resultSource, Option.bind_eq_bind, Option.bind_eq_some_iff,
            Option.some.injEq] at h
          obtain ⟨_, _, _, _, _, _, rfl⟩ := h
          rfl
  | turn session turnId =>
      simp only [currentSource, digestSource, Option.bind_eq_bind, Option.bind_eq_some_iff,
        Option.some.injEq] at h
      obtain ⟨_, _, _, _, _, _, rfl⟩ := h
      rfl

theorem mem_keys_of_currentSource (h : store.currentSource key = some source) :
    key ∈ store.keys (family key) := by
  have hmem {κ ρ : Type} [Ord κ] [Std.TransOrd κ] [Std.LawfulEqOrd κ] (t : Table κ ρ) {k : κ}
      {r : ρ} (hr : t[k]? = some r) (g : κ × ρ → SourceKey) : g (k, r) ∈ t.toList.map g :=
    List.mem_map_of_mem (Std.ExtTreeMap.mem_toList_iff_getElem?_eq_some.mpr hr)
  cases key with
  | event session byteOffset blockOrd =>
      obtain ⟨block, hblock, _⟩ := Option.bind_eq_some_iff.mp h
      exact hmem store.blocks hblock fun row => .event row.1.1 row.1.2.1 row.1.2.2
  | operation session turnId operationOrd result =>
      cases result with
      | false =>
          obtain ⟨o, ho, _⟩ := Option.bind_eq_some_iff.mp h
          exact hmem store.operations ho fun row => .operation row.1.1 row.1.2.1 row.1.2.2 false
      | true =>
          obtain ⟨o, ho, _⟩ := Option.bind_eq_some_iff.mp h
          exact hmem store.operations ho fun row => .operation row.1.1 row.1.2.1 row.1.2.2 true
  | turn session turnId =>
      obtain ⟨turn, hturn, _⟩ := Option.bind_eq_some_iff.mp h
      exact hmem store.turns hturn fun row => .turn row.1.1 row.1.2

theorem family_of_mem_keys (h : key ∈ store.keys f) : family key = f := by
  cases f <;>
  · obtain ⟨row, _, rfl⟩ := List.mem_map.mp h
    rfl

/-- The sources of a family are the current sources of its keys. -/
theorem mem_familySources :
    source ∈ store.familySources f ↔
      family source.sourceKey = f ∧ store.currentSource source.sourceKey = some source := by
  constructor
  · intro h
    obtain ⟨key, hkey, hsource⟩ := List.mem_filterMap.mp h
    have heq := sourceKey_of_currentSource hsource
    rw [heq]
    exact ⟨family_of_mem_keys hkey, hsource⟩
  · rintro ⟨hf, hsource⟩
    refine List.mem_filterMap.mpr ⟨source.sourceKey, ?_, hsource⟩
    rw [← hf]
    exact mem_keys_of_currentSource hsource

end Store

end Sulion.Retrieval.Sources
