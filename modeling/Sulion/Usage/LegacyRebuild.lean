import Sulion.Lib.OrderedQueries
import Sulion.Usage.ClaudeReceipts

set_option autoImplicit false

/-! # Usage rebuilt by queries

`rebuild_legacy` deletes a session's usage rows and fills them again with four queries over the
stored events. The queries read the JSON with operators of their own, in `BIGINT` arithmetic that
fails out of range, where live ingest reads it through `serde_json` and saturates.

`round_numeric` is the cast of a fractional number to `BIGINT`.
-/

namespace Sulion.Usage.Legacy

open Rust Ingest

variable (jsonbText : Json → String) (roundNumeric : String → Option Int)

/-! ## Numbers -/

/-- A `BIGINT` expression fails out of range. -/
def bigint (n : Int) : Option Int := if i64Min ≤ n ∧ n ≤ i64Max then some n else none

/-- `CASE WHEN jsonb_typeof(v) = 'number' THEN v::NUMERIC::BIGINT ELSE NULL END`. -/
def numberAt (value : Json) (path : List String) : Option (Option Int) :=
  match value.at? path with
  | some (.int n) => (bigint n).map some
  | some (.float literal) => (roundNumeric literal).map some
  | _ => some none

/-- The same with `ELSE 0`. -/
def countAt (value : Json) (path : List String) : Option Int :=
  (numberAt roundNumeric value path).map fun n => n.getD 0

/-! ## Codex -/

/-- The totals of an event that the Codex queries select. -/
def codexTotals (e : SourceEvent) : Option Json :=
  if e.2.subtype ≠ some inheritedHistory ∧
      e.2.payload.textAt jsonbText ["payload", "type"] = some "token_count" then
    (e.2.payload.at? ["payload", "info", "total_token_usage"]).filter Json.isObject
  else none

/-- The selected events in byte order, with their totals. -/
def codexRaw (events : List SourceEvent) : List (SourceEvent × Json) :=
  events.filterMap fun e => (codexTotals jsonbText e).map fun usage => (e, usage)

/-- `codex_parsed` and `codex_normalized` of `model_daily.sql`. -/
def codexNormalized (usage : Json) : Option Tokens := do
  let reportedInput ← countAt roundNumeric usage ["input_tokens"]
  let cacheRead ← countAt roundNumeric usage ["cached_input_tokens"]
  let cacheWrite ← countAt roundNumeric usage ["cache_write_input_tokens"]
  let output ← countAt roundNumeric usage ["output_tokens"]
  let uncached ← bigint (reportedInput - cacheRead)
  let input ← bigint (uncached - cacheWrite)
  some (.of (max input 0) cacheRead cacheWrite 0 output)

/-- `COALESCE(reported_total, reported_input + output)`. -/
def codexTotal (usage : Json) : Option Int := do
  match ← numberAt roundNumeric usage ["total_tokens"] with
  | some reportedTotal => some reportedTotal
  | none =>
      let reportedInput ← countAt roundNumeric usage ["input_tokens"]
      let output ← countAt roundNumeric usage ["output_tokens"]
      bigint (reportedInput + output)

/-- The counters of `codex_sessions.sql` and `daily_snapshots.sql`. -/
def codexSpend (usage : Json) : Option Spend := do
  let tokens ← codexNormalized roundNumeric usage
  let reasoning ← countAt roundNumeric usage ["reasoning_output_tokens"]
  let total ← codexTotal roundNumeric usage
  some (.of (fun column => max (tokens column) 0) (max reasoning 0) (max total 0))

/-- `CASE WHEN last_total IS NULL THEN NULL ELSE GREATEST(last_total - last_reasoning, 0) END`. -/
def codexContext (value : Json) : Option (Option Int) := do
  let lastUsage := ["payload", "info", "last_token_usage"]
  match ← numberAt roundNumeric value (lastUsage ++ ["total_tokens"]) with
  | none => some none
  | some lastTotal =>
      let lastReasoning ← countAt roundNumeric value (lastUsage ++ ["reasoning_output_tokens"])
      let context ← bigint (lastTotal - lastReasoning)
      some (some (max context 0))

/-- A number, if it is positive. -/
def positiveAt (value : Json) (path : List String) : Option (Option Int) :=
  (numberAt roundNumeric value path).map fun n => n.filter fun n => decide (0 < n)

/-- A row of `agent_session_usage` as the queries insert it. -/
def sessionRow (source : TranscriptSource) (e : SourceEvent) (spend : Spend)
    (contextTokens modelContextWindow : Option Int) (messageId : Option String) : SessionRow where
  agent := source.agentId
  spend := spend
  contextTokens := contextTokens
  modelContextWindow := modelContextWindow
  lastByteOffset := e.1
  observedAt := e.2.timestamp
  lastUsageMessageId := messageId
  codexResponseRecords := false

/-- `codex_sessions.sql`: the last selected event. -/
def codexSessions (events : List SourceEvent) : Option (Option SessionRow) :=
  match (codexRaw jsonbText events).getLast? with
  | none => some none
  | some (e, usage) => do
      let spend ← codexSpend roundNumeric usage
      let context ← codexContext roundNumeric e.2.payload
      let window ← positiveAt roundNumeric e.2.payload ["payload", "info", "model_context_window"]
      some (some (sessionRow .codex e spend context window none))

/-- The day of a selected event. -/
def rawDay (r : SourceEvent × Json) : Day := r.1.2.timestamp.dateNaive

/-- The Codex part of `daily_snapshots.sql`: the last selected event of each day. -/
def codexDaily (events : List SourceEvent) : Option (Table Day DailyRow) :=
  (Table.ofRows ((codexRaw jsonbText events).map fun r => (rawDay r, r.2))).select fun _ usage =>
    (codexSpend roundNumeric usage).map fun spend => ⟨TranscriptSource.codex.agentId, spend⟩

/-- The model of the last turn context up to an event. -/
def priorModel (events : EventTable) (byteOffset : Int) : Option String :=
  (lastEventBefore events (byteOffset + 1) fun row =>
    row.subtype != some inheritedHistory &&
      row.payload.textAt jsonbText ["type"] == some "turn_context" &&
      (row.payload.textAt jsonbText ["payload", "model"]).isSome).bind fun e =>
    e.2.payload.textAt jsonbText ["payload", "model"]

/-- The day and model of an event, with its counters: `codex_normalized`. -/
def codexRow (events : EventTable) (r : SourceEvent × Json) : Option ((Day × String) × Tokens) :=
  (codexNormalized roundNumeric r.2).map fun tokens =>
    ((rawDay r, (priorModel jsonbText events r.1.1).getD unknownModel), tokens)

/-- The columns of `codex_daily` before they are summed. -/
def codexIncrease (before tokens : Tokens) : Option Tokens :=
  if ∀ column ∈ TokenColumn.all, (bigint (tokens column - before column)).isSome then
    some fun column => max (tokens column - before column) 0
  else none

/-- The Codex part of `model_daily.sql`. -/
def codexModels (events : EventTable) : Option (Table (Day × String) ModelRow) := do
  let normalized ← (codexRaw jsonbText events.toList).mapM (codexRow jsonbText roundNumeric events)
  let increases ← (withLag Prod.snd 0 normalized).mapM fun r =>
    (codexIncrease r.1 r.2.2).map fun tokens => (r.2.1, tokens)
  (groupSum increases).select fun _ tokens =>
    if tokens.Fit then some ⟨TranscriptSource.codex.agentId, tokens, none⟩ else none

/-! ## Claude -/

/-- The usage of an event that the Claude queries select. -/
def claudeUsage (e : SourceEvent) : Option Json :=
  if e.2.payload.textAt jsonbText ["type"] = some "assistant" then
    ((e.2.payload.at? ["message", "usage"]).or (e.2.payload.get "usage")).filter Json.isObject
  else none

/-- `claude_responses`: the last event of each response, in byte order. -/
def claudeResponses (events : List SourceEvent) : List (SourceEvent × Json) :=
  distinctLast (fun r => Claude.receiptKey jsonbText r.1.1 r.1.2)
    (events.filterMap fun e => (claudeUsage jsonbText e).map fun usage => (e, usage))

/-- `claude_parsed`, with the `GREATEST` of the sums. -/
def claudeTokens (usage : Json) : Option Tokens := do
  let input ← countAt roundNumeric usage ["input_tokens"]
  let cacheRead ← countAt roundNumeric usage ["cache_read_input_tokens"]
  let cacheTotal ← countAt roundNumeric usage ["cache_creation_input_tokens"]
  let cache5m ← countAt roundNumeric usage ["cache_creation", "ephemeral_5m_input_tokens"]
  let cache1h ← countAt roundNumeric usage ["cache_creation", "ephemeral_1h_input_tokens"]
  let output ← countAt roundNumeric usage ["output_tokens"]
  let cacheRest ← bigint (cacheTotal - cache1h)
  some (.of (max input 0) (max cacheRead 0) (max (max cacheRest cache5m) 0) (max cache1h 0)
    (max output 0))

/-- A response with its counters. -/
abbrev Parsed := SourceEvent × Tokens

/-- The parsed responses, in byte order. -/
def claudeParsed (events : List SourceEvent) : Option (List Parsed) :=
  (claudeResponses jsonbText events).mapM fun r =>
    (claudeTokens roundNumeric r.2).map fun tokens => (r.1, tokens)

/-- The reported windows of the responses. -/
def claudeWindows (events : List SourceEvent) : Option (List (Option Int)) :=
  (claudeResponses jsonbText events).mapM fun r =>
    positiveAt roundNumeric r.2 ["model_context_window"]

/-- `claude_sessions.sql`. -/
def claudeSessions (events : List SourceEvent) : Option (Option SessionRow) := do
  let parsed ← claudeParsed jsonbText roundNumeric events
  let windows ← claudeWindows jsonbText roundNumeric events
  let contexts ← parsed.mapM fun r => bigint r.2.sum
  match parsed.getLast?, contexts.getLast? with
  | some (e, _), some context =>
      let spend : Spend := .of (parsed.map Prod.snd).sum 0 (parsed.map Prod.snd).sum.sum
      if spend.Fit then
        some (some (sessionRow .claudeCode e spend (some context) (windows.filterMap id).getLast?
          (e.2.payload.textAt jsonbText ["message", "id"])))
      else none
  | _, _ => some none

/-- The Claude part of `daily_snapshots.sql`. -/
def claudeDaily (events : List SourceEvent) : Option (Table Day DailyRow) := do
  let parsed ← claudeParsed jsonbText roundNumeric events
  let byDay := groupSum (parsed.map fun r => (r.1.2.timestamp.dateNaive, r.2))
  if ∀ day ∈ byDay.toList, day.2.Fit then
    let rows := (Claude.runningSums 0 byDay.toList).map fun e => (e.1, Claude.snapshotRow e.2)
    if ∀ e ∈ rows, e.2.spend.Fit then some (Table.ofRows rows) else none
  else none

/-- The Claude part of `model_daily.sql`. -/
def claudeModels (events : List SourceEvent) : Option (Table (Day × String) ModelRow) := do
  let parsed ← claudeParsed jsonbText roundNumeric events
  let bucket := fun r : Parsed => Claude.receiptBucket jsonbText r.1.2
  (groupSum (parsed.map fun r => (bucket r, r.2))).select fun key tokens =>
    if tokens.Fit then
      some ⟨TranscriptSource.claudeCode.agentId, tokens,
        (parsed.filter fun r => bucket r = key).getLast?.bind fun r =>
          r.1.2.payload.textAt jsonbText ["message", "id"]⟩
    else none

/-! ## The rebuild -/

/-- The rows the four queries insert for a session. -/
def legacyRows (source : TranscriptSource) (events : EventTable) : Option UsageTables :=
  match source with
  | .codex => do
      let session ← codexSessions jsonbText roundNumeric events.toList
      let daily ← codexDaily jsonbText roundNumeric events.toList
      let models ← codexModels jsonbText roundNumeric events
      some ⟨session, daily, models, ∅⟩
  | .claudeCode => do
      let session ← claudeSessions jsonbText roundNumeric events.toList
      let daily ← claudeDaily jsonbText roundNumeric events.toList
      let models ← claudeModels jsonbText roundNumeric events.toList
      some ⟨session, daily, models, ∅⟩

/-- `rebuild_legacy` for one session: nothing is deleted for a session without events. -/
def rebuildLegacy (source : TranscriptSource) (events : EventTable) (db : UsageTables) :
    Option UsageTables :=
  if events.isEmpty then some db
  else
    (legacyRows jsonbText roundNumeric source events).map fun rows =>
      { rows with responses := db.responses }

/-! ## What is to agree -/

/-- The token and context fields of a session row. -/
def usageFields (row : SessionRow) : Spend × Option Int × Option Int :=
  (row.spend, row.contextTokens, row.modelContextWindow)

/-- The same token and context fields, the same daily rows and the same model rows. -/
structure SameRows (live rebuilt : UsageTables) : Prop where
  session : live.session.map usageFields = rebuilt.session.map usageFields
  daily : live.daily = rebuilt.daily
  models : live.models = rebuilt.models

/-- Whenever the events are ingested, the rebuild succeeds and leaves the rows as they are. -/
def RebuildAgrees (source : TranscriptSource) (events : List SourceEvent) : Prop :=
  ∀ s, ingestAll jsonbText source .empty events = some s →
    ∃ db, rebuildLegacy jsonbText roundNumeric source s.events s.tables = some db ∧
      SameRows s.tables db

/-! ## Numbers that are read alike -/

/-- A token field is absent or an integer that is not negative. -/
def IsTokenField (value : Json) (path : List String) : Prop :=
  ∀ json, value.at? path = some json → ∃ n : Int, 0 ≤ n ∧ json = .int n

/-- A number under the path is within `BIGINT`. -/
def InRange (value : Json) (path : List String) : Prop :=
  ∀ n, value.at? path = some (.int n) → n ≤ i64Max

/-- A number under the path is an integer within `BIGINT`. -/
def IsWindowField (value : Json) (path : List String) : Prop :=
  ∀ json, value.at? path = some json → (∀ literal, json ≠ .float literal) ∧
    ∀ n, json = .int n → i64Min ≤ n ∧ n ≤ i64Max

variable {jsonbText roundNumeric} {value : Json} {path : List String}

theorem bigint_eq {n : Int} (h0 : i64Min ≤ n) (h1 : n ≤ i64Max) : bigint n = some n :=
  if_pos ⟨h0, h1⟩

/-- A token field as the queries read it. -/
theorem numberAt_eq (hfield : IsTokenField value path) (hrange : InRange value path) :
    (value.at? path = none ∧ numberAt roundNumeric value path = some none) ∨
      ∃ n : Int, 0 ≤ n ∧ n ≤ i64Max ∧ value.at? path = some (.int n) ∧
        numberAt roundNumeric value path = some (some n) := by
  unfold numberAt
  cases hat : value.at? path with
  | none => exact .inl ⟨rfl, rfl⟩
  | some json =>
      obtain ⟨n, hn, rfl⟩ := hfield json hat
      have hmax := hrange n hat
      have hmin : i64Min ≤ n := by
        unfold i64Min
        omega
      refine .inr ⟨n, hn, hmax, rfl, ?_⟩
      simp [bigint_eq hmin hmax]

/-- Both sides read a token field alike. -/
theorem countAt_eq (hfield : IsTokenField value path) (hrange : InRange value path) :
    countAt roundNumeric value path = some ((positiveI64At value path).getD 0) := by
  unfold countAt
  rcases @numberAt_eq roundNumeric _ _ hfield hrange with
    ⟨hat, hnumber⟩ | ⟨n, hn, hmax, hat, hnumber⟩
  · simp [hnumber, positiveI64At, hat]
  · have hmin : i64Min ≤ n := by
      unfold i64Min
      omega
    rw [hnumber]
    by_cases hpos : 0 < n
    · simp [positiveI64At, hat, Json.asI64, hmin, hmax, hpos, Option.filter]
    · have hzero : n = 0 := by omega
      subst hzero
      simp [positiveI64At, hat, Json.asI64, hmin, hmax, Option.filter]

/-- Both sides read a context window alike. -/
theorem positiveAt_eq (h : IsWindowField value path) :
    positiveAt roundNumeric value path = some (positiveI64At value path) := by
  unfold positiveAt numberAt positiveI64At
  cases hat : value.at? path with
  | none => rfl
  | some json =>
      obtain ⟨hfloat, hint⟩ := h json hat
      cases json with
      | int n =>
          obtain ⟨hmin, hmax⟩ := hint n rfl
          simp [bigint_eq hmin hmax, Json.asI64, hmin, hmax]
      | float literal => exact absurd rfl (hfloat literal)
      | _ => rfl

/-- The events table in byte order is the list of the events. -/
theorem toList_eq {s : UsageState} {events : List SourceEvent} (h : Claude.Stored s events)
    (horder : ByteOrder events) : s.events.toList = events := by
  have hsorted : s.events.toList.Pairwise fun a b => a.1 < b.1 :=
    (Std.ExtTreeMap.ordered_keys_toList (t := s.events)).imp compare_lt_iff_lt.mp
  have hnodup : events.Nodup := horder.imp fun hlt heq => by simp [heq] at hlt
  have hperm : s.events.toList.Perm events := by
    rw [List.perm_ext_iff_of_nodup (Table.nodup_toList _) hnodup]
    rintro ⟨k, row⟩
    rw [Std.ExtTreeMap.mem_toList_iff_getElem?_eq_some]
    exact h k row
  refine hperm.eq_of_pairwise (fun a b _ _ hab hba => ?_) hsorted horder
  exact absurd (hab.trans hba) (lt_irrefl _)

end Sulion.Usage.Legacy
