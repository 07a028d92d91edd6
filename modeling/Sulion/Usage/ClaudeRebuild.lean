import Sulion.Usage.ClaudeLive
import Sulion.Usage.LegacyRebuild

set_option autoImplicit false

/-! # A Claude session rebuilt

The Claude queries of the rebuild beside what live ingest leaves (`ClaudeLive`). As long as both
sides read the records alike (`ClaudeReadAlike`) the responses that the queries select are the
receipts held, so that all sums are the same. What need not be the same is what the rows keep beside
the sums: the window of a receipt that was replaced, or of the record around its usage, and the
message id of a receipt that has left its bucket (`ClaudeKept`).
-/

namespace Sulion.Usage.Legacy

open Rust Ingest
open Claude

variable {jsonbText : Json → String} {roundNumeric : String → Option Int}
  {events : List SourceEvent} {s : UsageState} {e : SourceEvent} {new : Receipt}

/-! ## Records that are read alike -/

/-- The token fields of a usage object. -/
def claudeFields : List (List String) :=
  [["input_tokens"], ["cache_read_input_tokens"], ["cache_creation_input_tokens"],
    ["cache_creation", "ephemeral_5m_input_tokens"],
      ["cache_creation", "ephemeral_1h_input_tokens"],
    ["output_tokens"]]

/-- Both sides take the same records for receipts, tell them apart, and read the same numbers in
them. -/
structure ClaudeReadAlike (jsonbText : Json → String) (events : List SourceEvent) : Prop where
  live : ∀ e ∈ events, e.2.subtype ≠ some inheritedHistory
  assistant : ∀ e ∈ events, e.2.payload.textAt jsonbText ["type"] = some "assistant" ↔
    e.2.payload.stringAt ["type"] = some "assistant"
  ids : ∀ e ∈ events, ∀ id, e.2.payload.at? ["message", "id"] = some id →
    id = .null ∨ ∃ text, id = .str text
  models : ∀ e ∈ events, ModelIsText e.2.payload
  keys : KeysDistinct jsonbText events
  fields : ∀ e ∈ events, ∀ usage ∈ claudeUsageObject e.2.payload, ∀ path ∈ claudeFields,
    IsTokenField usage path ∧ InRange usage path
  windows : ∀ e ∈ events, ∀ usage ∈ claudeUsageObject e.2.payload,
    IsWindowField usage ["model_context_window"]
  charges : ChargesFit events

/-! ## The responses -/

/-- The receipts with their records. -/
def receiptPairs (events : List SourceEvent) : List (SourceEvent × Receipt) :=
  events.filterMap fun e => (receiptOf e).map fun r => (e, r)

/-- The last receipt of each key, with its record. -/
def heldPairs (jsonbText : Json → String) (events : List SourceEvent) :
    List (SourceEvent × Receipt) :=
  distinctLast (fun p => receiptKey jsonbText p.1.1 p.1.2) (receiptPairs events)

/-- The window that the usage object of a receipt names. -/
def usageWindow (e : SourceEvent) : Option Int :=
  (claudeUsageObject e.2.payload).bind fun usage => positiveI64At usage ["model_context_window"]

/-- The id of the last receipt that a bucket holds. -/
def lastHeldId (events : List SourceEvent) (key : Day × String) : Option String :=
  (((heldReceipts events).filter fun r => decide (r.bucket = key)).getLast?).bind
    fun r => r.usage.messageId

/-- **When the rows of a Claude session are rebuilt as they were.** -/
structure ClaudeKept (jsonbText : Json → String) (events : List SourceEvent) : Prop where
  ids : ∀ key : Day × String, (∃ r ∈ heldReceipts events, r.bucket = key) →
    keptId (receipts events) key = lastHeldId events key
  window : lastWindow (receipts events) =
    ((heldPairs jsonbText events).filterMap fun p => usageWindow p.1).getLast?

theorem receiptPairs_append (events : List SourceEvent) (e : SourceEvent) :
    receiptPairs (events ++ [e]) =
      receiptPairs events ++ ((receiptOf e).map fun r => (e, r)).toList := by
  rw [receiptPairs, List.filterMap_append]
  cases h : receiptOf e <;> simp [receiptPairs, h]

theorem mem_receiptPairs {p : SourceEvent × Receipt} (h : p ∈ receiptPairs events) :
    p.1 ∈ events ∧ receiptOf p.1 = some p.2 := by
  obtain ⟨e, he, hp⟩ := List.mem_filterMap.mp h
  obtain ⟨r, hr, rfl⟩ := Option.map_eq_some_iff.mp hp
  exact ⟨he, hr⟩

theorem mem_heldPairs {p : SourceEvent × Receipt} (h : p ∈ heldPairs jsonbText events) :
    p.1 ∈ events ∧ receiptOf p.1 = some p.2 := mem_receiptPairs (mem_of_mem_distinctLast h)

/-- **The last receipts of the keys are those held.** -/
theorem heldPairs_snd (hkeys : KeysDistinct jsonbText events) (horder : ByteOrder events) :
    (heldPairs jsonbText events).map Prod.snd = heldReceipts events := by
  induction events using List.reverseRecOn with
  | nil => rfl
  | append_singleton events e ih =>
      have hkeys' : KeysDistinct jsonbText events := fun e he e' he' =>
        hkeys e (List.mem_append_left _ he) e' (List.mem_append_left _ he')
      obtain ⟨horder', -, hbelow⟩ := List.pairwise_append.mp horder
      have hlt : ∀ e' ∈ events, e'.1 < e.1 := fun e' he' => hbelow e' he' e (.head _)
      have hheld := ih hkeys' horder'
      cases hreceipt : receiptOf e with
      | none =>
          rw [heldPairs, receiptPairs_append, hreceipt, heldReceipts_append_none hreceipt, ← hheld]
          simp [heldPairs]
      | some new =>
          have hoffset := (receiptOf_eq_some_iff.mp hreceipt).2.1
          rw [heldPairs, receiptPairs_append, hreceipt, Option.map_some, Option.toList_some,
            distinctLast_append, heldReceipts_append hreceipt fun r hr => ?_, List.map_append,
            ← hheld, List.filter_map]
          · congr 2
            apply List.filter_congr
            intro p hp
            obtain ⟨hmem, hof⟩ := mem_heldPairs hp
            have hsame := receiptKey_eq_iff hkeys (List.mem_append_left _ hmem) (by simp)
              (hlt p.1 hmem).ne hof hreceipt
            have hsupersedes : supersedes new p.2 = true ↔
                receiptKey jsonbText p.1.1 p.1.2 = receiptKey jsonbText e.1 e.2 := by
              rw [hsame, supersedes, Bool.and_eq_true, beq_iff_eq]
              constructor
              · rintro ⟨hsome, heq⟩
                exact ⟨heq ▸ hsome, heq.symm⟩
              · rintro ⟨hsome, heq⟩
                exact ⟨heq ▸ hsome, heq.symm⟩
            rw [Bool.eq_iff_iff]
            simp [← hsupersedes]
          · obtain ⟨e', he', hr⟩ := mem_receipts_iff.mp hr
            rw [(receiptOf_eq_some_iff.mp hr).2.1, hoffset]
            exact hlt e' he'

/-- The usage object of a receipt. -/
def pairUsage (p : SourceEvent × Receipt) : Json := (claudeUsageObject p.1.2.payload).getD .null

theorem pairUsage_eq {p : SourceEvent × Receipt} (h : receiptOf p.1 = some p.2) :
    claudeUsageObject p.1.2.payload = some (pairUsage p) := by
  have hextract := (receiptOf_eq_some_iff.mp h).1
  obtain ⟨usage, husage, -⟩ := Option.map_eq_some_iff.mp hextract
  rw [pairUsage, husage]
  rfl

theorem claudeUsage_eq (h : ClaudeReadAlike jsonbText events) (he : e ∈ events) :
    claudeUsage jsonbText e = claudeUsageObject e.2.payload := by
  unfold claudeUsage claudeUsageObject
  have hassistant := h.assistant e he
  by_cases htype : e.2.payload.stringAt ["type"] = some "assistant"
  · rw [if_pos (hassistant.mpr htype), if_neg (not_not_intro htype), at?_pair]
  · rw [if_neg fun htext => htype (hassistant.mp htext), if_pos htype]

theorem claudeResponses_eq (h : ClaudeReadAlike jsonbText events) :
    claudeResponses jsonbText events =
      (heldPairs jsonbText events).map fun p => (p.1, pairUsage p) := by
  unfold claudeResponses heldPairs
  have hrows : (events.filterMap fun e => (claudeUsage jsonbText e).map fun usage => (e, usage)) =
      (receiptPairs events).map fun p => (p.1, pairUsage p) := by
    unfold receiptPairs
    rw [List.map_filterMap]
    apply List.filterMap_congr
    intro e he
    rw [claudeUsage_eq h he]
    cases hreceipt : receiptOf e with
    | none =>
        have hnone : claudeUsageObject e.2.payload = none := by
          have hextract : extractClaudeUsage e.2.payload = none :=
            Option.map_eq_none_iff.mp hreceipt
          exact Option.map_eq_none_iff.mp hextract
        rw [hnone]
        rfl
    | some r =>
        have husage := @pairUsage_eq (e, r) hreceipt
        rw [husage]
        rfl
  rw [hrows, distinctLast_map]

/-! ## The same numbers -/

theorem claudeTokens_eq (h : ClaudeReadAlike jsonbText events) {p : SourceEvent × Receipt}
    (hp : p ∈ heldPairs jsonbText events) :
    claudeTokens roundNumeric (pairUsage p) = some p.2.usage.spend.tokens := by
  obtain ⟨hmem, hof⟩ := mem_heldPairs hp
  have husage := pairUsage_eq hof
  have hfields := h.fields p.1 hmem (pairUsage p) husage
  have hcount {path : List String} (hpath : path ∈ claudeFields) :
      countAt roundNumeric (pairUsage p) path = some ((positiveI64At (pairUsage p) path).getD 0) :=
    countAt_eq (hfields path hpath).1 (hfields path hpath).2
  have hisCount (path : List String) : IsCount ((positiveI64At (pairUsage p) path).getD 0) :=
    isCount_getD isCount_zero
  obtain ⟨h0, h1⟩ := hisCount ["cache_creation_input_tokens"]
  obtain ⟨h2, h3⟩ := hisCount ["cache_creation", "ephemeral_1h_input_tokens"]
  have hrest : bigint ((positiveI64At (pairUsage p) ["cache_creation_input_tokens"]).getD 0 -
      (positiveI64At (pairUsage p) ["cache_creation", "ephemeral_1h_input_tokens"]).getD 0) =
        some ((positiveI64At (pairUsage p) ["cache_creation_input_tokens"]).getD 0 -
          (positiveI64At (pairUsage p) ["cache_creation", "ephemeral_1h_input_tokens"]).getD
            0) := by
    apply bigint_eq
    · unfold i64Min i64Max at *
      omega
    · omega
  have hsub : saturatingSub ((positiveI64At (pairUsage p) ["cache_creation_input_tokens"]).getD 0)
      ((positiveI64At (pairUsage p) ["cache_creation", "ephemeral_1h_input_tokens"]).getD 0) =
        (positiveI64At (pairUsage p) ["cache_creation_input_tokens"]).getD 0 -
          (positiveI64At (pairUsage p) ["cache_creation", "ephemeral_1h_input_tokens"]).getD 0 := by
    unfold saturatingSub i64Clamp
    unfold i64Min i64Max at *
    omega
  have hlive : p.2.usage.spend.tokens = .of (tokenAt (pairUsage p) "input_tokens")
      (tokenAt (pairUsage p) "cache_read_input_tokens")
      (max (saturatingSub (tokenAt (pairUsage p) "cache_creation_input_tokens")
        ((positiveI64At (pairUsage p) ["cache_creation", "ephemeral_1h_input_tokens"]).getD 0))
        ((positiveI64At (pairUsage p) ["cache_creation", "ephemeral_5m_input_tokens"]).getD 0))
      ((positiveI64At (pairUsage p) ["cache_creation", "ephemeral_1h_input_tokens"]).getD 0)
      (tokenAt (pairUsage p) "output_tokens") := by
    have hextract := (receiptOf_eq_some_iff.mp hof).1
    unfold extractClaudeUsage at hextract
    rw [husage, Option.map_some] at hextract
    rw [← Option.some.inj hextract]
    rfl
  unfold claudeTokens
  rw [hcount (by decide), hcount (by decide), hcount (by decide), hcount (by decide),
    hcount (by decide), hcount (by decide)]
  simp only [Option.bind_eq_bind, Option.bind_some]
  rw [hrest, Option.bind_some, hlive]
  simp only [tokenAt]
  rw [hsub, max_eq_left (hisCount _).1, max_eq_left (hisCount _).1, max_eq_left (hisCount _).1,
    max_eq_left (hisCount _).1, max_eq_left (le_max_of_le_right (hisCount _).1)]

/-- The parsed responses are the receipts held. -/
theorem claudeParsed_eq (h : ClaudeReadAlike jsonbText events) :
    claudeParsed jsonbText roundNumeric events =
      some ((heldPairs jsonbText events).map fun p => (p.1, p.2.usage.spend.tokens)) := by
  unfold claudeParsed
  rw [claudeResponses_eq h, mapM_eq_some_iff, List.map_map, List.map_map]
  apply List.map_congr_left
  intro p hp
  show (claudeTokens roundNumeric (pairUsage p)).map (fun tokens => (p.1, tokens)) = _
  rw [claudeTokens_eq h hp]
  rfl

theorem claudeWindows_eq (h : ClaudeReadAlike jsonbText events) :
    claudeWindows jsonbText roundNumeric events =
      some ((heldPairs jsonbText events).map fun p => usageWindow p.1) := by
  unfold claudeWindows
  rw [claudeResponses_eq h, mapM_eq_some_iff, List.map_map, List.map_map]
  apply List.map_congr_left
  intro p hp
  obtain ⟨hmem, hof⟩ := mem_heldPairs hp
  have husage := pairUsage_eq hof
  show positiveAt roundNumeric (pairUsage p) ["model_context_window"] = some (usageWindow p.1)
  rw [positiveAt_eq (h.windows p.1 hmem (pairUsage p) husage), usageWindow, husage,
    Option.bind_some]

/-- What the queries read of a receipt's record is what live ingest charges it to. -/
theorem receiptBucket_eq (h : ClaudeReadAlike jsonbText events) {p : SourceEvent × Receipt}
    (hp : p ∈ heldPairs jsonbText events) : receiptBucket jsonbText p.1.2 = p.2.bucket := by
  obtain ⟨hmem, hof⟩ := mem_heldPairs hp
  obtain ⟨hextract, -, htime⟩ := receiptOf_eq_some_iff.mp hof
  rw [receiptBucket, Receipt.bucket, textAt_model (h.models p.1 hmem), htime,
    model_of_extract hextract]

theorem messageText_eq (h : ClaudeReadAlike jsonbText events) {p : SourceEvent × Receipt}
    (hp : p ∈ heldPairs jsonbText events) :
    p.1.2.payload.textAt jsonbText ["message", "id"] = p.2.usage.messageId := by
  obtain ⟨hmem, hof⟩ := mem_heldPairs hp
  rw [messageId_of_extract (receiptOf_eq_some_iff.mp hof).1]
  cases hid : p.1.2.payload.at? ["message", "id"] with
  | none => simp [Json.textAt, Json.stringAt, hid]
  | some id =>
      rcases h.ids p.1 hmem id hid with rfl | ⟨text, rfl⟩
      · simp [Json.textAt, Json.stringAt, hid, Json.asStr]
      · simp [Json.textAt, Json.stringAt, hid, Json.asStr]

/-- A selection of the parsed responses is one of the receipts held. -/
theorem map_heldPairs (h : ClaudeReadAlike jsonbText events) (horder : ByteOrder events)
    {β : Type*} (f : Receipt → β) :
    (heldPairs jsonbText events).map (fun p => f p.2) = (heldReceipts events).map f := by
  rw [← heldPairs_snd h.keys horder, List.map_map]
  rfl

/-! ## The model rows -/

theorem counted_held (h : ClaudeReadAlike jsonbText events) : Counted (heldReceipts events) :=
  counted_of_sublist List.filter_sublist h.charges

/-- The model rows are rebuilt as they were just when each bucket has kept the id of the last
receipt it holds. -/
theorem claudeModels_eq_iff (h : ClaudeReadAlike jsonbText events) (horder : ByteOrder events)
    (hlive : ClaudeLive events s) :
    claudeModels jsonbText roundNumeric events = some s.tables.models ↔
      ∀ key : Day × String, (∃ r ∈ heldReceipts events, r.bucket = key) →
        keptId (receipts events) key = lastHeldId events key := by
  have hbuckets : ((heldPairs jsonbText events).map fun p => (p.1, p.2.usage.spend.tokens)).map
      (fun r : Parsed => (receiptBucket jsonbText r.1.2, r.2)) =
        (heldReceipts events).map fun r => (r.bucket, r.usage.spend.tokens) := by
    rw [← map_heldPairs h horder, List.map_map]
    apply List.map_congr_left
    intro p hp
    show (receiptBucket jsonbText p.1.2, _) = _
    rw [receiptBucket_eq h hp]
  have hlast (key : Day × String) : ((((heldPairs jsonbText events).map fun p =>
      (p.1, p.2.usage.spend.tokens)).filter fun r : Parsed =>
        decide (receiptBucket jsonbText r.1.2 = key)).getLast?.bind fun r =>
          r.1.2.payload.textAt jsonbText ["message", "id"]) = lastHeldId events key := by
    have hfilter : (heldPairs jsonbText events).filter (fun p =>
        decide (receiptBucket jsonbText p.1.2 = key)) =
          (heldPairs jsonbText events).filter fun p => decide (p.2.bucket = key) := by
      apply List.filter_congr
      intro p hp
      rw [receiptBucket_eq h hp]
    rw [lastHeldId, ← heldPairs_snd h.keys horder, List.filter_map, List.getLast?_map,
      List.filter_map, List.getLast?_map]
    show (((heldPairs jsonbText events).filter fun p =>
      decide (receiptBucket jsonbText p.1.2 = key)).getLast?.map _).bind _ =
        (((heldPairs jsonbText events).filter fun p =>
          decide (p.2.bucket = key)).getLast?.map _).bind _
    rw [hfilter]
    cases hpair :
      ((heldPairs jsonbText events).filter fun p => decide (p.2.bucket = key)).getLast? with
    | none => rfl
    | some p =>
        have hp := (List.mem_filter.mp (List.mem_of_getLast? hpair)).1
        rw [Option.map_some, Option.bind_some, Option.map_some, Option.bind_some]
        exact messageText_eq h hp
  unfold claudeModels
  rw [claudeParsed_eq h]
  simp only [Option.bind_eq_bind, Option.bind_some]
  rw [hbuckets, Table.select_eq_some_iff]
  apply forall_congr'
  intro key
  rw [hlast key, groupSum, Table.lookup_mergeList_add, sumWhere_map]
  have hbilled := hlive.billed.models key
  have hexists : (∃ e ∈ (heldReceipts events).map fun r => (r.bucket, r.usage.spend.tokens),
      e.1 = key) ↔ ∃ r ∈ heldReceipts events, r.bucket = key := by simp
  by_cases hheld : ∃ r ∈ heldReceipts events, r.bucket = key
  · rw [if_pos hheld] at hbilled
    obtain ⟨row, hrow, htokens⟩ := Option.map_eq_some_iff.mp hbilled
    obtain ⟨hagent, hid⟩ := hlive.models key row hrow
    have hfit : Tokens.Fit (sumWhere (fun r => r.bucket = key) (·.usage.spend.tokens)
        (heldReceipts events)) := (counted_held h).tokens _
    rw [if_pos (hexists.mpr hheld), hrow, Option.map_some, if_pos hfit, Option.map_some, ← htokens,
      ← hid, ← hagent]
    obtain ⟨agent, tokens, messageId⟩ := row
    simp only [Option.some.injEq, ModelRow.mk.injEq, true_and]
    constructor
    · intro hsame _
      exact hsame.symm
    · intro hsame
      exact (hsame hheld).symm
  · rw [if_neg hheld, Option.map_eq_none_iff] at hbilled
    rw [if_neg fun hmem => hheld (hexists.mp hmem), hbilled]
    simp [hheld]

/-! ## The daily rows -/

/-- **The daily rows are rebuilt as they were.** -/
theorem claudeDaily_eq (h : ClaudeReadAlike jsonbText events) (horder : ByteOrder events)
    (hlive : ClaudeLive events s) :
    claudeDaily jsonbText roundNumeric events = some s.tables.daily := by
  have hdays : ((heldPairs jsonbText events).map fun p => (p.1, p.2.usage.spend.tokens)).map
      (fun r : Parsed => (r.1.2.timestamp.dateNaive, r.2)) =
        (heldReceipts events).map fun r => (r.timestamp.dateNaive, r.usage.spend.tokens) := by
    rw [← map_heldPairs h horder, List.map_map]
    apply List.map_congr_left
    intro p hp
    show (p.1.2.timestamp.dateNaive, _) = _
    rw [(receiptOf_eq_some_iff.mp (mem_heldPairs hp).2).2.2]
  have hcount := counted_held h
  have hgrouped := Table.grouped_mergeList (fun r : Receipt => r.timestamp.dateNaive)
    (fun r => r.usage.spend.tokens) (heldReceipts events)
  have hsorted : (groupSum ((heldReceipts events).map fun r =>
      (r.timestamp.dateNaive, r.usage.spend.tokens))).toList.Pairwise (·.1 < ·.1) :=
    (Std.ExtTreeMap.ordered_keys_toList).imp compare_lt_iff_lt.mp
  have hfit : ∀ day ∈ (groupSum ((heldReceipts events).map fun r =>
      (r.timestamp.dateNaive, r.usage.spend.tokens))).toList, day.2.Fit := by
    intro day hday
    rw [hgrouped.sum day hday]
    exact hcount.tokens _
  have hrows : ∀ e ∈ (runningSums 0 (groupSum ((heldReceipts events).map fun r =>
      (r.timestamp.dateNaive, r.usage.spend.tokens))).toList).map fun e => (e.1, snapshotRow e.2),
        e.2.spend.Fit := by
    intro e he
    obtain ⟨⟨day, total⟩, hmem, rfl⟩ := List.mem_map.mp he
    have hsum := (mem_runningSums hsorted hmem).1
    rw [zero_add] at hsum
    have htotal : total = sumWhere (fun r => r.timestamp.dateNaive ≤ day) (·.usage.spend.tokens)
        (heldReceipts events) := hsum.trans (hgrouped.sum_filter (· ≤ day))
    rw [htotal]
    exact snapshotRow_fit (hcount.tokens _) (hcount.sum _)
  unfold claudeDaily
  rw [claudeParsed_eq h]
  simp only [Option.bind_eq_bind, Option.bind_some]
  rw [hdays, if_pos hfit, if_pos hrows, Option.some.injEq]
  apply Table.ext
  intro day
  rw [hlive.daily day]
  exact lookup_daySums (heldReceipts events) (fun r => r.timestamp.dateNaive)
    (fun r => r.usage.spend.tokens) day

/-! ## The session row -/

/-- The last receipt is held, behind all others. -/
theorem getLast?_heldReceipts (horder : ByteOrder events)
    (hlast : (receipts events).getLast? = some new) :
      (heldReceipts events).getLast? = some new := by
  obtain ⟨before, hsplit⟩ := List.getLast?_eq_some_iff.mp hlast
  have hpair := receipts_order horder
  rw [hsplit] at hpair
  have hlt : ∀ r ∈ before, r.byteOffset < new.byteOffset := fun r hr =>
    (List.pairwise_append.mp hpair).2.2 r hr new (.head _)
  rw [heldReceipts, hsplit, latest_append hlt, List.getLast?_concat]

/-- The token and context fields of the session row are rebuilt as they were just when its window is
that of the receipts held. -/
theorem claudeSessions_eq_iff (h : ClaudeReadAlike jsonbText events) (horder : ByteOrder events)
    (hlive : ClaudeLive events s) :
    (∃ row, claudeSessions jsonbText roundNumeric events = some row ∧
        s.tables.session.map usageFields = row.map usageFields) ↔
      lastWindow (receipts events) =
        ((heldPairs jsonbText events).filterMap fun p => usageWindow p.1).getLast? := by
  have hcount := counted_held h
  have htokens : (((heldPairs jsonbText events).map fun p =>
      (p.1, p.2.usage.spend.tokens)).map Prod.snd : List Tokens) = (heldReceipts events).map
        (·.usage.spend.tokens) := by
    rw [List.map_map, ← map_heldPairs h horder fun r => r.usage.spend.tokens]
    rfl
  have hcontexts : ((heldPairs jsonbText events).map fun p => (p.1, p.2.usage.spend.tokens)).mapM
      (fun r : Parsed => bigint r.2.sum) =
        some ((heldPairs jsonbText events).map fun p => p.2.usage.spend.tokens.sum) := by
    rw [mapM_eq_some_iff, List.map_map, List.map_map]
    apply List.map_congr_left
    intro p hp
    have hmem : p.2 ∈ receipts events :=
      mem_receipts_iff.mpr ⟨p.1, (mem_heldPairs hp).1, (mem_heldPairs hp).2⟩
    have hsub : [p.2].Sublist (receipts events) := List.singleton_sublist.mpr hmem
    have hone := (counted_of_sublist hsub h.charges).total fun _ => True
    rw [sumWhere_true] at hone
    have hsum : IsCount p.2.usage.spend.tokens.sum := by simpa using hone
    exact bigint_eq ((by decide : i64Min ≤ 0).trans hsum.1) hsum.2
  have hwindows : (((heldPairs jsonbText events).map fun p => usageWindow p.1).filterMap id) =
      (heldPairs jsonbText events).filterMap fun p => usageWindow p.1 := by
    rw [List.filterMap_map]
    rfl
  unfold claudeSessions
  rw [claudeParsed_eq h, claudeWindows_eq h]
  simp only [Option.bind_eq_bind, Option.bind_some]
  rw [hcontexts, Option.bind_some, htokens, hwindows, List.getLast?_map, List.getLast?_map]
  have hpairs : (heldPairs jsonbText events).getLast?.map Prod.snd =
      (heldReceipts events).getLast? := by
    rw [← heldPairs_snd h.keys horder, List.getLast?_map]
  cases hlast : (receipts events).getLast? with
  | none =>
      have hnil : receipts events = [] := List.getLast?_eq_none_iff.mp hlast
      have hheld : heldReceipts events = [] := by rw [heldReceipts, hnil]; rfl
      have hempty : heldPairs jsonbText events = [] := by
        rw [hheld, List.getLast?_nil, Option.map_eq_none_iff] at hpairs
        exact List.getLast?_eq_none_iff.mp hpairs
      rw [hempty, hlive.none hnil, hnil]
      simp [lastWindow]
  | some new =>
      rw [getLast?_heldReceipts horder hlast] at hpairs
      obtain ⟨p, hp, hnew⟩ := Option.map_eq_some_iff.mp hpairs
      obtain ⟨row, hrow, hcontext, hwindow, -⟩ := hlive.session new hlast
      have hmem : new ∈ receipts events := List.mem_of_getLast? hlast
      have hspend : row.spend = .of ((heldReceipts events).map (·.usage.spend.tokens)).sum 0
          (Tokens.sum ((heldReceipts events).map (·.usage.spend.tokens)).sum) := by
        have hbilled := hlive.billed.session
        rw [SessionBilled, hrow, Option.elim_some, sum_spend_eq fun r hr =>
          (receipt_spend h.charges (mem_heldReceipts_iff.mp hr).1).1] at hbilled
        exact hbilled
      have hfit : row.spend.Fit := (hlive.billed.fit row hrow).spend
      rw [(receipt_spend h.charges hmem).2] at hcontext
      rw [hp, Option.map_some, Option.map_some, hrow, hnew]
      simp only
      rw [← hspend, if_pos hfit]
      simp only [Option.some.injEq, exists_eq_left', Option.map_some, usageFields, sessionRow,
        Prod.mk.injEq, true_and, hcontext, hwindow]

/-- **When a Claude session is rebuilt as it was.** -/
theorem claude_rebuild_iff (h : ClaudeReadAlike jsonbText events) (horder : ByteOrder events)
    (hlive : ClaudeLive events s) :
    (∃ rows, legacyRows jsonbText roundNumeric .claudeCode s.events = some rows ∧
        SameRows s.tables rows) ↔ ClaudeKept jsonbText events := by
  have hdaily : claudeDaily jsonbText roundNumeric events = some s.tables.daily :=
    claudeDaily_eq h horder hlive
  have hsessions : (∃ row, claudeSessions jsonbText roundNumeric events = some row ∧
        s.tables.session.map usageFields = row.map usageFields) ↔ _ :=
    claudeSessions_eq_iff h horder hlive
  have hmodels : claudeModels jsonbText roundNumeric events = some s.tables.models ↔ _ :=
    claudeModels_eq_iff h horder hlive
  unfold legacyRows
  rw [toList_eq hlive.billed.stored horder]
  constructor
  · rintro ⟨rows, hrows, hsame⟩
    obtain ⟨session, hsession, hrows⟩ := Option.bind_eq_some_iff.mp hrows
    obtain ⟨daily, -, hrows⟩ := Option.bind_eq_some_iff.mp hrows
    obtain ⟨models, hbuckets, hrows⟩ := Option.bind_eq_some_iff.mp hrows
    obtain rfl := Option.some.inj hrows
    have hsameModels : s.tables.models = models := hsame.models
    rw [← hsameModels] at hbuckets
    exact ⟨hmodels.mp hbuckets, hsessions.mp ⟨session, hsession, hsame.session⟩⟩
  · intro hkept
    obtain ⟨session, hsession, hfields⟩ := hsessions.mpr hkept.window
    refine ⟨⟨session, s.tables.daily, s.tables.models, ∅⟩, ?_, ⟨hfields, rfl, rfl⟩⟩
    simp only [Option.bind_eq_bind]
    rw [hsession, Option.bind_some, hdaily, Option.bind_some, hmodels.mpr hkept.ids,
      Option.bind_some]

end Sulion.Usage.Legacy
