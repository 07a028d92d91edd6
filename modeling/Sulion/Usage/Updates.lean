import Sulion.Ingest.Events
import Sulion.Usage.Tokens

set_option autoImplicit false

/-! # Usage reported by transcript records

`extract_usage` reads token usage from one record. Codex reports cumulative session totals in
`token_count` events and, in newer versions, one `token_usage_record` for each response;
Claude Code repeats a response's usage on every record of that response.

The counters of an update are a function of the column (`Spend`), like those of the tables
it is written to.
-/

namespace Sulion.Usage

open Rust Ingest

/-- The counters of a session row: the token columns, reasoning and total. -/
inductive SpendColumn
  | token (column : TokenColumn)
  | reasoningOutputTokens
  | totalTokens
  deriving DecidableEq, Repr

/-- The seven counters of a session row. -/
abbrev Spend := SpendColumn → Int

/-- The columns that `agent_model_usage_daily` has too. -/
def Spend.tokens (s : Spend) : Tokens := fun column => s (.token column)

@[simp] theorem Spend.tokens_apply (s : Spend) (column : TokenColumn) :
    s.tokens column = s (.token column) := rfl

def Spend.of (tokens : Tokens) (reasoningOutput total : Int) : Spend
  | .token column => tokens column
  | .reasoningOutputTokens => reasoningOutput
  | .totalTokens => total

inductive UsageMode
  | cumulative
  | delta
  deriving DecidableEq, Repr

structure UsageUpdate where
  mode : UsageMode
  /-- The response id of a delta. -/
  messageId : Option String
  model : Option String
  spend : Spend
  contextTokens : Option Int
  modelContextWindow : Option Int

/-- Where no model is known. -/
def unknownModel : String := "(unknown model)"

/-! ## Extraction -/

def positiveI64At (value : Json) (path : List String) : Option Int :=
  ((value.at? path).bind Json.asI64).filter fun parsed => decide (0 < parsed)

def tokenAt (value : Json) (key : String) : Int := (positiveI64At value [key]).getD 0

def totalTokenCount (value : Json) : Int :=
  (positiveI64At value ["total_tokens"]).getD
    (saturatingAdd (tokenAt value "input_tokens") (tokenAt value "output_tokens"))

/-- Input reported inclusive of the cache categories, without them. -/
def freshInput (reported cached writes : Int) : Int :=
  max (saturatingSub (saturatingSub reported cached) writes) 0

/-- The object `extract_response` reads its counters from, with the response's id. -/
def responseUsage (payload : Json) : Option (String × Json) := do
  let responseId ← ((← payload.get "response_id").asStr).filter fun id => !id.isEmpty
  let usage ← (payload.get "usage").filter Json.isObject
  let _ ← ((← usage.get "input_tokens").asI64).filter fun tokens => decide (0 ≤ tokens)
  let _ ← ((← usage.get "output_tokens").asI64).filter fun tokens => decide (0 ≤ tokens)
  some (responseId, usage)

def extractResponse (payload : Json) : Option UsageUpdate :=
  (responseUsage payload).map fun (responseId, usage) =>
    let cached := tokenAt usage "cached_input_tokens"
    let writes := tokenAt usage "cache_write_input_tokens"
    { mode := .delta
      messageId := some responseId
      model := payload.stringAt ["model"]
      spend := .of
        (.of (freshInput (tokenAt usage "input_tokens") cached writes) cached writes 0
          (tokenAt usage "output_tokens"))
        (tokenAt usage "reasoning_output_tokens") (totalTokenCount usage)
      contextTokens := none
      modelContextWindow := none }

/-- The `info` of a `token_count` event and the totals in it. -/
def tokenCountInfo (value : Json) : Option (Json × Json) := do
  let payload ← value.get "payload"
  if codexRecordKind value ≠ some "event_msg" ∨ payload.stringAt ["type"] ≠ some "token_count" then
    none
  else
    let info ← payload.get "info"
    let total ← info.get "total_token_usage"
    some (info, total)

/-- The usage of the last model call, when it is an object. -/
def lastTokenUsage (info : Json) : Option Json := (info.get "last_token_usage").filter Json.isObject

/-- The part of `extract_codex_usage` for `token_count` events. -/
def extractTokenCount (value : Json) : Option UsageUpdate :=
  (tokenCountInfo value).map fun (info, total) =>
    let cached := tokenAt total "cached_input_tokens"
    let writes := tokenAt total "cache_write_input_tokens"
    { mode := .cumulative
      messageId := none
      model := none
      spend := .of
        (.of (freshInput (tokenAt total "input_tokens") cached writes) cached writes 0
          (tokenAt total "output_tokens"))
        (tokenAt total "reasoning_output_tokens") (totalTokenCount total)
      contextTokens := (lastTokenUsage info).map fun last =>
        saturatingSub (totalTokenCount last) (tokenAt last "reasoning_output_tokens")
      modelContextWindow := positiveI64At info ["model_context_window"] }

def extractCodexUsage (value : Json) : Option UsageUpdate :=
  (value.get "payload").bind fun payload =>
    if codexRecordKind value = some "token_usage_record" then extractResponse payload
    else extractTokenCount value

/-- The usage object `extract_claude_usage` reads: the message's, else the record's. -/
def claudeUsageObject (value : Json) : Option Json :=
  if value.stringAt ["type"] ≠ some "assistant" then none
  else
    (((value.get "message").bind (·.get "usage")).or (value.get "usage")).filter Json.isObject

def extractClaudeUsage (value : Json) : Option UsageUpdate :=
  (claudeUsageObject value).map fun usage =>
    let cacheWrite5m := (positiveI64At usage ["cache_creation", "ephemeral_5m_input_tokens"]).getD 0
    let cacheWrite1h := (positiveI64At usage ["cache_creation", "ephemeral_1h_input_tokens"]).getD 0
    let cacheWrite :=
      max (saturatingSub (tokenAt usage "cache_creation_input_tokens") cacheWrite1h) cacheWrite5m
    let cacheRead := tokenAt usage "cache_read_input_tokens"
    let input := tokenAt usage "input_tokens"
    let output := tokenAt usage "output_tokens"
    let total := saturatingAdd (saturatingAdd (saturatingAdd (saturatingAdd input cacheWrite)
      cacheWrite1h) cacheRead) output
    { mode := .delta
      messageId := ((value.get "message").bind (·.get "id")).bind Json.asStr
      model := ((value.get "message").bind (·.get "model")).bind Json.asStr
      spend := .of (.of input cacheRead cacheWrite cacheWrite1h output) 0 total
      contextTokens := some total
      modelContextWindow := (positiveI64At usage ["model_context_window"]).or
        (positiveI64At value ["model_context_window"]) }

def extractUsage (source : TranscriptSource) (value : Json) : Option UsageUpdate :=
  match source with
  | .codex => extractCodexUsage value
  | .claudeCode => extractClaudeUsage value

/-! ## What an extracted update is like -/

theorem positiveI64At_bounds {value : Json} {path : List String} {n : Int}
    (h : positiveI64At value path = some n) : 0 < n ∧ n ≤ i64Max := by
  obtain ⟨hbind, hpos⟩ := Option.filter_eq_some_iff.mp h
  obtain ⟨inner, _, hi64⟩ := Option.bind_eq_some_iff.mp hbind
  refine ⟨by simpa using hpos, ?_⟩
  cases inner with
  | int m =>
      simp only [Json.asI64] at hi64
      split at hi64
      · rename_i hrange
        cases hi64
        exact hrange.2
      · cases hi64
  | _ => cases hi64

/-- A value a counter can hold: an `i64` that is not negative. -/
def IsCount (n : Int) : Prop := 0 ≤ n ∧ n ≤ i64Max

theorem isCount_zero : IsCount 0 := ⟨le_refl 0, by decide⟩

theorem isCount_getD {value : Json} {path : List String} {n : Int} (hn : IsCount n) :
    IsCount ((positiveI64At value path).getD n) := by
  cases h : positiveI64At value path with
  | none => exact hn
  | some m => exact ⟨(positiveI64At_bounds h).1.le, (positiveI64At_bounds h).2⟩

theorem isCount_tokenAt (value : Json) (key : String) : IsCount (tokenAt value key) :=
  isCount_getD isCount_zero

theorem isCount_saturatingAdd {a b : Int} (ha : IsCount a) (hb : IsCount b) :
    IsCount (saturatingAdd a b) :=
  ⟨i64Clamp_nonneg (add_nonneg ha.1 hb.1), by unfold saturatingAdd i64Clamp i64Min i64Max; omega⟩

theorem isCount_totalTokenCount (value : Json) : IsCount (totalTokenCount value) :=
  isCount_getD (isCount_saturatingAdd (isCount_tokenAt _ _) (isCount_tokenAt _ _))

theorem isCount_max {a b : Int} (ha : a ≤ i64Max) (hb : IsCount b) : IsCount (max a b) :=
  ⟨le_max_of_le_right hb.1, max_le ha hb.2⟩

theorem saturatingSub_le (a b : Int) : saturatingSub a b ≤ i64Max := by
  unfold saturatingSub i64Clamp i64Min i64Max
  omega

theorem isCount_freshInput (reported cached writes : Int) :
    IsCount (freshInput reported cached writes) :=
  isCount_max (saturatingSub_le _ _) isCount_zero

theorem isCount_spendOf {input cached writes hour output reasoning total : Int}
    (h : ∀ n ∈ [input, cached, writes, hour, output, reasoning, total], IsCount n)
    (column : SpendColumn) :
    IsCount (Spend.of (.of input cached writes hour output) reasoning total column) := by
  simp only [List.forall_mem_cons] at h
  obtain ⟨hinput, hcached, hwrites, hhour, houtput, hreasoning, htotal, _⟩ := h
  cases column with
  | token column => cases column <;> assumption
  | reasoningOutputTokens => exact hreasoning
  | totalTokens => exact htotal

theorem isCount_extractTokenCount {value : Json} {usage : UsageUpdate}
    (h : extractTokenCount value = some usage) (column : SpendColumn) :
    IsCount (usage.spend column) := by
  obtain ⟨⟨info, total⟩, _, rfl⟩ := Option.map_eq_some_iff.mp h
  refine isCount_spendOf ?_ column
  simp only [List.forall_mem_cons, List.not_mem_nil, false_implies, implies_true, and_true]
  exact ⟨isCount_freshInput _ _ _, isCount_tokenAt _ _, isCount_tokenAt _ _, isCount_zero,
    isCount_tokenAt _ _, isCount_tokenAt _ _, isCount_totalTokenCount _⟩

/-- The counters of an extracted update are counts. -/
theorem isCount_extractUsage {source : TranscriptSource} {value : Json} {usage : UsageUpdate}
    (h : extractUsage source value = some usage) (column : SpendColumn) :
    IsCount (usage.spend column) := by
  have hresponse : ∀ payload, extractResponse payload = some usage →
      IsCount (usage.spend column) := by
    intro payload h
    obtain ⟨⟨id, object⟩, _, rfl⟩ := Option.map_eq_some_iff.mp h
    refine isCount_spendOf ?_ column
    simp only [List.forall_mem_cons, List.not_mem_nil, false_implies, implies_true, and_true]
    exact ⟨isCount_freshInput _ _ _, isCount_tokenAt _ _, isCount_tokenAt _ _, isCount_zero,
      isCount_tokenAt _ _, isCount_tokenAt _ _, isCount_totalTokenCount _⟩
  cases source with
  | codex =>
      obtain ⟨payload, _, h⟩ := Option.bind_eq_some_iff.mp h
      split at h
      · exact hresponse payload h
      · exact isCount_extractTokenCount h column
  | claudeCode =>
      obtain ⟨object, _, rfl⟩ := Option.map_eq_some_iff.mp h
      have hwrites : ∀ key, IsCount ((positiveI64At object ["cache_creation", key]).getD 0) :=
        fun key => isCount_getD isCount_zero
      have h5m := hwrites "ephemeral_5m_input_tokens"
      have h1h := hwrites "ephemeral_1h_input_tokens"
      have hwrite := isCount_max (saturatingSub_le (tokenAt object "cache_creation_input_tokens")
        ((positiveI64At object ["cache_creation", "ephemeral_1h_input_tokens"]).getD 0)) h5m
      refine isCount_spendOf ?_ column
      simp only [List.forall_mem_cons, List.not_mem_nil, false_implies, implies_true, and_true]
      refine ⟨isCount_tokenAt _ _, isCount_tokenAt _ _, hwrite, h1h, isCount_tokenAt _ _,
        isCount_zero, ?_⟩
      exact isCount_saturatingAdd (isCount_saturatingAdd (isCount_saturatingAdd
        (isCount_saturatingAdd (isCount_tokenAt _ _) hwrite) h1h) (isCount_tokenAt _ _))
        (isCount_tokenAt _ _)

/-- A context window is positive. -/
theorem window_extractUsage {source : TranscriptSource} {value : Json} {usage : UsageUpdate}
    {window : Int} (h : extractUsage source value = some usage)
    (hw : usage.modelContextWindow = some window) : 0 < window := by
  cases source with
  | codex =>
      obtain ⟨payload, _, h⟩ := Option.bind_eq_some_iff.mp h
      split at h
      · obtain ⟨⟨id, object⟩, _, rfl⟩ := Option.map_eq_some_iff.mp h
        cases hw
      · obtain ⟨⟨info, total⟩, _, rfl⟩ := Option.map_eq_some_iff.mp h
        exact (positiveI64At_bounds hw).1
  | claudeCode =>
      obtain ⟨object, _, rfl⟩ := Option.map_eq_some_iff.mp h
      rcases Option.or_eq_some_iff.mp hw with hw | ⟨_, hw⟩
      · exact (positiveI64At_bounds hw).1
      · exact (positiveI64At_bounds hw).1

end Sulion.Usage
