import Mathlib.Data.List.Find
import Sulion.Usage.LegacyCodex

set_option autoImplicit false

/-! # A Codex session rebuilt

The Codex queries of the rebuild beside what live ingest leaves (`CodexLive`). As long as both sides
read the records alike (`CodexReadAlike`) the model rows are the same. The session row and the daily
rows are the same just when `CodexKept` holds of the last counts: live ingest takes a total of zero
for an absent one, counts a context without a total, and keeps the context and the window of an
earlier count where the last one has none.
-/

namespace Sulion.Usage.Legacy

open Rust Ingest
open Claude (Stored)

variable {jsonbText : Json → String} {roundNumeric : String → Option Int}
  {events : List SourceEvent} {s : UsageState} {e : SourceEvent} {n : Count}

/-! ## Records that are read alike -/

/-- The token fields of a total. -/
def tokenFields : List String :=
  ["input_tokens", "cached_input_tokens", "cache_write_input_tokens", "output_tokens",
    "reasoning_output_tokens", "total_tokens"]

/-- The token fields are absent or counts. -/
def TokenFields (usage : Json) : Prop :=
  ∀ key ∈ tokenFields, IsTokenField usage [key] ∧ InRange usage [key]

/-- A total that the Codex queries select. -/
def SelectsTotal (jsonbText : Json → String) (value : Json) : Prop :=
  value.textAt jsonbText ["payload", "type"] = some "token_count" ∧
    (value.at? ["payload", "info", "total_token_usage"]).any Json.isObject = true

/-- Both sides take the same records for token counts and for turn contexts, and read the same
numbers in them. -/
structure CodexReadAlike (jsonbText : Json → String) (events : List SourceEvent) : Prop where
  selected : ∀ e ∈ events, e.2.subtype ≠ some inheritedHistory →
    (SelectsTotal jsonbText e.2.payload ↔ (tokenCountInfo e.2.payload).isSome)
  contexts : ∀ e ∈ events, e.2.subtype ≠ some inheritedHistory →
    (e.2.payload.textAt jsonbText ["payload", "model"]).isSome →
      (storedEventKind .codex e.2.payload = "turn_context" ↔
        e.2.payload.textAt jsonbText ["type"] = some "turn_context")
  totals : ∀ n ∈ counts events, TokenFields n.total
  lasts : ∀ n ∈ counts events, ∀ last ∈ lastTokenUsage n.info, TokenFields last
  /-- The cache categories do not take the input below the least `BIGINT`. -/
  cached : ∀ n ∈ counts events, tokenAt n.total "cached_input_tokens" +
    tokenAt n.total "cache_write_input_tokens" ≤ tokenAt n.total "input_tokens" - i64Min
  windows : ∀ n ∈ counts events, IsWindowField n.info ["model_context_window"]

/-! ## What the last counts are to be like -/

/-- A reported total is not zero, unless nothing was used, and one that is made up is in range. -/
structure TotalAlike (usage : Json) : Prop where
  reported : usage.at? ["total_tokens"] = some (.int 0) →
    tokenAt usage "input_tokens" + tokenAt usage "output_tokens" = 0
  absent : usage.at? ["total_tokens"] = none →
    tokenAt usage "input_tokens" + tokenAt usage "output_tokens" ≤ i64Max

/-- The last call of the last count reports its total, or no count has a last call. -/
structure ContextAlike (counted : List Count) (n : Count) : Prop where
  total : ∀ last ∈ lastTokenUsage n.info, (last.at? ["total_tokens"]).isSome
  zero : ∀ last ∈ lastTokenUsage n.info, last.at? ["total_tokens"] = some (.int 0) →
    saturatingAdd (tokenAt last "input_tokens") (tokenAt last "output_tokens") =
      tokenAt last "reasoning_output_tokens"
  kept : lastTokenUsage n.info = none → ∀ m ∈ counted, lastTokenUsage m.info = none

/-- The last count has a window, or no count has one. -/
def WindowAlike (counted : List Count) (n : Count) : Prop :=
  positiveI64At n.info ["model_context_window"] = none →
    ∀ m ∈ counted, positiveI64At m.info ["model_context_window"] = none

/-- **When the rows of a Codex session are rebuilt as they were.** -/
structure CodexKept (events : List SourceEvent) : Prop where
  totals : ∀ d n, ((counts events).filter fun n => decide (n.day = d)).getLast? = some n →
    TotalAlike n.total
  contexts : ∀ n, (counts events).getLast? = some n → ContextAlike (counts events) n
  windows : ∀ n, (counts events).getLast? = some n → WindowAlike (counts events) n

/-! ## The same counts -/

theorem count_of_mem (h : n ∈ counts events) :
    n.event ∈ events ∧ n.event.2.subtype ≠ some inheritedHistory ∧
      tokenCountInfo n.event.2.payload = some (n.info, n.total) ∧
      extractTokenCount n.event.2.payload = some n.usage := by
  obtain ⟨e, he, hof⟩ := mem_counts_iff.mp h
  obtain ⟨hinherited, rfl, hinfo, hextract⟩ := countOf_eq_some_iff.mp hof
  exact ⟨he, hinherited, hinfo, hextract⟩

/-- The paths to the `info` of a token count. -/
theorem at?_info {value info total : Json} (h : tokenCountInfo value = some (info, total))
    (path : List String) : value.at? ("payload" :: "info" :: path) = info.at? path := by
  unfold tokenCountInfo at h
  obtain ⟨payload, hpayload, h⟩ := Option.bind_eq_some_iff.mp h
  split at h
  · cases h
  · obtain ⟨info', hinfo, h⟩ := Option.bind_eq_some_iff.mp h
    obtain ⟨total', htotal, h⟩ := Option.bind_eq_some_iff.mp h
    obtain ⟨rfl, rfl⟩ := Prod.mk.inj (Option.some.inj h)
    simp only [Json.at?, hpayload, Option.bind_some, hinfo]

theorem at?_total {value info total : Json} (h : tokenCountInfo value = some (info, total)) :
    info.at? ["total_token_usage"] = some total := by
  unfold tokenCountInfo at h
  obtain ⟨payload, hpayload, h⟩ := Option.bind_eq_some_iff.mp h
  split at h
  · cases h
  · obtain ⟨info', hinfo, h⟩ := Option.bind_eq_some_iff.mp h
    obtain ⟨total', htotal, h⟩ := Option.bind_eq_some_iff.mp h
    obtain ⟨rfl, rfl⟩ := Prod.mk.inj (Option.some.inj h)
    simp only [Json.at?, htotal, Option.bind_some]

/-- The queries select the counts, with their totals. -/
theorem codexRaw_eq (h : CodexReadAlike jsonbText events) :
    codexRaw jsonbText events = (counts events).map fun n => (n.event, n.total) := by
  unfold codexRaw counts
  rw [List.map_filterMap]
  apply List.filterMap_congr
  intro e he
  unfold codexTotals
  by_cases hinherited : e.2.subtype = some inheritedHistory
  · rw [countOf_eq_none_iff.mpr (.inl hinherited), if_neg fun hboth => hboth.1 hinherited]
    rfl
  · have hselected := h.selected e he hinherited
    cases hinfo : tokenCountInfo e.2.payload with
    | none =>
        have hnone : countOf e = none :=
          countOf_eq_none_iff.mpr (.inr (Option.map_eq_none_iff.mpr hinfo))
        rw [hnone]
        have hno : ¬SelectsTotal jsonbText e.2.payload := by
          intro hselects
          have hsome := hselected.mp hselects
          rw [hinfo] at hsome
          cases hsome
        by_cases htype : e.2.payload.textAt jsonbText ["payload", "type"] = some "token_count"
        · rw [if_pos ⟨hinherited, htype⟩]
          have hfilter : (e.2.payload.at? ["payload", "info", "total_token_usage"]).filter
              Json.isObject = none := by
            rw [Option.filter_eq_none_iff]
            intro total htotal hobject
            refine hno ⟨htype, ?_⟩
            rw [htotal]
            exact hobject
          rw [hfilter]
          rfl
        · rw [if_neg fun hboth => htype hboth.2]
          rfl
    | some found =>
        obtain ⟨info, total⟩ := found
        obtain ⟨htype, hobject⟩ := hselected.mpr (by rw [hinfo]; rfl)
        have htotal : e.2.payload.at? ["payload", "info", "total_token_usage"] = some total := by
          rw [at?_info hinfo, at?_total hinfo]
        obtain ⟨n, hn⟩ : ∃ n, countOf e = some n := by
          rw [← Option.isSome_iff_exists, Option.isSome_iff_ne_none, ne_eq, countOf_eq_none_iff]
          rintro (hsubtype | hextract)
          · exact hinherited hsubtype
          · rw [extractTokenCount, hinfo] at hextract
            cases hextract
        obtain ⟨-, hevent, hninfo, -⟩ := countOf_eq_some_iff.mp hn
        obtain ⟨-, rfl⟩ := Prod.mk.inj (Option.some.inj (hninfo.symm.trans hinfo))
        rw [htotal, Option.any_some] at hobject
        rw [if_pos ⟨hinherited, htype⟩, hn, htotal, Option.filter_some, if_pos hobject, ← hevent]
        rfl

/-! ## The same numbers -/

theorem TokenFields.countAt {usage : Json} (h : TokenFields usage) {key : String}
    (hkey : key ∈ tokenFields) : countAt roundNumeric usage [key] = some (tokenAt usage key) :=
  countAt_eq (h key hkey).1 (h key hkey).2

theorem bigint_isCount {k : Int} (h : IsCount k) : bigint k = some k :=
  bigint_eq ((by decide : i64Min ≤ 0).trans h.1) h.2

/-- The input without the cache categories, when nothing saturates. -/
theorem freshInput_eq {reported cached writes : Int} (hreported : IsCount reported)
    (hcached : IsCount cached) (hwrites : IsCount writes)
    (hrange : cached + writes ≤ reported - i64Min) :
    bigint (reported - cached) = some (reported - cached) ∧
      bigint (reported - cached - writes) = some (reported - cached - writes) ∧
      max (reported - cached - writes) 0 = freshInput reported cached writes := by
  obtain ⟨h1, h2⟩ := hreported
  obtain ⟨h3, h4⟩ := hcached
  obtain ⟨h5, h6⟩ := hwrites
  refine ⟨bigint_eq ?_ ?_, bigint_eq ?_ ?_, ?_⟩
  all_goals unfold i64Min i64Max at *
  · omega
  · omega
  · omega
  · omega
  · unfold freshInput saturatingSub i64Clamp i64Min i64Max
    omega

theorem codexNormalized_eq (h : CodexReadAlike jsonbText events) (hn : n ∈ counts events) :
    codexNormalized roundNumeric n.total = some n.usage.spend.tokens := by
  have hfields := h.totals n hn
  obtain ⟨-, -, hinfo, hextract⟩ := count_of_mem hn
  obtain ⟨hsub, hinput, hmax⟩ := freshInput_eq (isCount_tokenAt n.total "input_tokens")
    (isCount_tokenAt n.total "cached_input_tokens")
    (isCount_tokenAt n.total "cache_write_input_tokens") (h.cached n hn)
  have husage : n.usage.spend.tokens = .of
      (freshInput (tokenAt n.total "input_tokens") (tokenAt n.total "cached_input_tokens")
        (tokenAt n.total "cache_write_input_tokens"))
      (tokenAt n.total "cached_input_tokens") (tokenAt n.total "cache_write_input_tokens") 0
      (tokenAt n.total "output_tokens") := by
    rw [extractTokenCount, hinfo] at hextract
    rw [← Option.some.inj hextract]
    rfl
  unfold codexNormalized
  rw [hfields.countAt (by decide), hfields.countAt (by decide), hfields.countAt (by decide),
    hfields.countAt (by decide)]
  simp only [Option.bind_eq_bind, Option.bind_some]
  rw [hsub, Option.bind_some, hinput, Option.bind_some, hmax, husage]

theorem positiveI64At_of_pos {value : Json} {path : List String} {k : Int}
    (hat : value.at? path = some (.int k)) (hpos : 0 < k) (hmax : k ≤ i64Max) :
    positiveI64At value path = some k := by
  have hmin : i64Min ≤ k := (by decide : i64Min ≤ 0).trans hpos.le
  simp [positiveI64At, hat, Json.asI64, hmin, hmax, hpos]

theorem positiveI64At_zero {value : Json} {path : List String}
    (hat : value.at? path = some (.int 0)) : positiveI64At value path = none := by
  have hmin : i64Min ≤ 0 := by decide
  have hmax : 0 ≤ i64Max := by decide
  simp [positiveI64At, hat, Json.asI64, hmin, hmax]

/-- A total is read alike just when it is not a zero that stands for an absent one. -/
theorem codexTotal_eq_iff {usage : Json} (h : TokenFields usage) :
    codexTotal roundNumeric usage = some (totalTokenCount usage) ↔ TotalAlike usage := by
  have hinput : IsCount (tokenAt usage "input_tokens") := isCount_tokenAt usage _
  have houtput : IsCount (tokenAt usage "output_tokens") := isCount_tokenAt usage _
  obtain ⟨hfield, hrange⟩ := h "total_tokens" (by decide)
  unfold codexTotal totalTokenCount
  rcases @numberAt_eq roundNumeric _ _ hfield hrange with
    ⟨hat, hnumber⟩ | ⟨k, hk, hmax, hat, hnumber⟩
  · -- no total is reported
    have hlive : positiveI64At usage ["total_tokens"] = none := by simp [positiveI64At, hat]
    rw [hnumber, hlive, h.countAt (by decide), h.countAt (by decide)]
    simp only [Option.bind_eq_bind, Option.bind_some, Option.getD_none]
    constructor
    · intro hsum
      refine ⟨fun hzero => ?_, fun _ => ?_⟩
      · rw [hat] at hzero
        cases hzero
      · unfold bigint at hsum
        split at hsum
        · rename_i hin
          exact hin.2
        · cases hsum
    · intro halike
      have hle := halike.absent hat
      have hsum : IsCount (tokenAt usage "input_tokens" + tokenAt usage "output_tokens") :=
        ⟨add_nonneg hinput.1 houtput.1, hle⟩
      rw [bigint_isCount hsum]
      obtain ⟨h0, h1⟩ := hsum
      unfold saturatingAdd i64Clamp
      unfold i64Min i64Max at *
      congr 1
      omega
  · rw [hnumber]
    simp only [Option.bind_eq_bind, Option.bind_some]
    by_cases hpos : 0 < k
    · rw [positiveI64At_of_pos hat hpos hmax, Option.getD_some]
      refine ⟨fun _ => ⟨fun hzero => ?_, fun habsent => ?_⟩, fun _ => rfl⟩
      · rw [hat] at hzero
        cases hzero
        exact absurd hpos (lt_irrefl 0)
      · rw [hat] at habsent
        cases habsent
    · have hzero : k = 0 := by omega
      subst hzero
      rw [positiveI64At_zero hat, Option.getD_none]
      have hsum : saturatingAdd (tokenAt usage "input_tokens") (tokenAt usage "output_tokens") = 0 ↔
          tokenAt usage "input_tokens" + tokenAt usage "output_tokens" = 0 := by
        obtain ⟨h0, h1⟩ := hinput
        obtain ⟨h2, h3⟩ := houtput
        unfold saturatingAdd i64Clamp
        unfold i64Min i64Max at *
        omega
      constructor
      · intro hequal
        refine ⟨fun _ => hsum.mp (Option.some.inj hequal).symm, fun habsent => ?_⟩
        rw [hat] at habsent
        cases habsent
      · intro halike
        rw [hsum.mpr (halike.reported hat)]

theorem codexTotal_nonneg {usage : Json} (h : TokenFields usage) {total : Int}
    (htotal : codexTotal roundNumeric usage = some total) : 0 ≤ total := by
  obtain ⟨hfield, hrange⟩ := h "total_tokens" (by decide)
  unfold codexTotal at htotal
  rcases @numberAt_eq roundNumeric _ _ hfield hrange with
    ⟨-, hnumber⟩ | ⟨k, hk, -, -, hnumber⟩
  · rw [hnumber, h.countAt (by decide), h.countAt (by decide)] at htotal
    simp only [Option.bind_eq_bind, Option.bind_some] at htotal
    unfold bigint at htotal
    split at htotal
    · rw [← Option.some.inj htotal]
      exact add_nonneg (isCount_tokenAt usage _).1 (isCount_tokenAt usage _).1
    · cases htotal
  · rw [hnumber] at htotal
    simp only [Option.bind_eq_bind, Option.bind_some] at htotal
    rw [← Option.some.inj htotal]
    exact hk

/-- The counters of a count are read alike just when its total is. -/
theorem codexSpend_eq_iff (h : CodexReadAlike jsonbText events) (hn : n ∈ counts events) :
    codexSpend roundNumeric n.total = some n.usage.spend ↔ TotalAlike n.total := by
  have hfields := h.totals n hn
  obtain ⟨-, -, hinfo, hextract⟩ := count_of_mem hn
  have hspend := isCount_extractTokenCount hextract
  have halike : codexTotal roundNumeric n.total = some (totalTokenCount n.total) ↔
      TotalAlike n.total := codexTotal_eq_iff hfields
  rw [← halike]
  have hreasoning : n.usage.spend .reasoningOutputTokens =
      tokenAt n.total "reasoning_output_tokens" := by
    rw [extractTokenCount, hinfo] at hextract
    rw [← Option.some.inj hextract]
    rfl
  have htotalLive : n.usage.spend .totalTokens = totalTokenCount n.total := by
    rw [extractTokenCount, hinfo] at hextract
    rw [← Option.some.inj hextract]
    rfl
  unfold codexSpend
  rw [codexNormalized_eq h hn, hfields.countAt (by decide)]
  simp only [Option.bind_eq_bind, Option.bind_some]
  cases htotal : codexTotal roundNumeric n.total with
  | none => simp
  | some total =>
      have hnonneg := codexTotal_nonneg hfields htotal
      simp only [Option.bind_some, Option.some.injEq]
      constructor
      · intro hequal
        have hcolumn := congrFun hequal .totalTokens
        change max total 0 = _ at hcolumn
        rw [max_eq_left hnonneg, htotalLive] at hcolumn
        exact hcolumn
      · intro hequal
        funext column
        cases column with
        | token column =>
            show max (n.usage.spend (.token column)) 0 = _
            exact max_eq_left (hspend _).1
        | reasoningOutputTokens =>
            show max (tokenAt n.total "reasoning_output_tokens") 0 = _
            rw [hreasoning]
            exact max_eq_left (isCount_tokenAt n.total _).1
        | totalTokens =>
            show max total 0 = _
            rw [max_eq_left hnonneg, hequal, htotalLive]

/-! ## The same models -/

/-- Two conditions that agree on the stored rows find the same row. -/
theorem lastEventBefore_congr {stored : EventTable} {byteOffset : Int} {p q : EventRow → Bool}
    (h : ∀ (k : Int) (row : EventRow), stored[k]? = some row → p row = q row) :
    lastEventBefore stored byteOffset p = lastEventBefore stored byteOffset q := by
  unfold lastEventBefore
  apply List.find?_congr
  rintro ⟨k, row⟩ hmem
  rw [List.mem_reverse, Std.ExtTreeMap.mem_toList_iff_getElem?_eq_some] at hmem
  rw [h k row hmem]

theorem priorModel_eq (h : CodexReadAlike jsonbText events) (hstored : Stored s events)
    (byteOffset : Int) :
    priorModel jsonbText s.events byteOffset = recordedModel jsonbText s.events byteOffset := by
  unfold priorModel recordedModel
  congr 1
  apply lastEventBefore_congr
  intro k row hrow
  have hmem : (k, row) ∈ events := (hstored k row).mp hrow
  by_cases hinherited : row.subtype = some inheritedHistory
  · simp [hinherited]
  · cases hmodel : (row.payload.textAt jsonbText ["payload", "model"]).isSome with
    | false => simp
    | true =>
        have hboth := h.contexts (k, row) hmem hinherited hmodel
        have hkind : (storedEventKind .codex row.payload == "turn_context") =
            (row.payload.textAt jsonbText ["type"] == some "turn_context") := by
          rw [Bool.eq_iff_iff, beq_iff_eq, beq_iff_eq]
          exact hboth
        rw [hkind, Bool.and_comm (row.subtype != some inheritedHistory)]

/-- The differences of two counts are in range. -/
theorem codexIncrease_eq {before tokens : Tokens} (hbefore : ∀ column, IsCount (before column))
    (htokens : ∀ column, IsCount (tokens column)) :
    codexIncrease before tokens = some fun column => max (tokens column - before column) 0 := by
  unfold codexIncrease
  rw [if_pos]
  intro column _
  obtain ⟨h0, h1⟩ := hbefore column
  obtain ⟨h2, h3⟩ := htokens column
  have hmin : i64Min ≤ tokens column - before column := by
    unfold i64Min i64Max at *
    omega
  have hmax : tokens column - before column ≤ i64Max := by omega
  rw [bigint_eq hmin hmax]
  rfl

/-- **The model rows are rebuilt as they were.** -/
theorem codexModels_eq (h : CodexReadAlike jsonbText events) (horder : ByteOrder events)
    (hlive : CodexLive jsonbText events s) :
    codexModels jsonbText roundNumeric s.events = some s.tables.models := by
  have hnormalized : (codexRaw jsonbText s.events.toList).mapM
      (codexRow jsonbText roundNumeric s.events) =
        some ((counts events).map (liveRow jsonbText s.events)) := by
    rw [mapM_eq_some_iff, toList_eq hlive.stored horder, codexRaw_eq h, List.map_map, List.map_map]
    apply List.map_congr_left
    intro n hn
    show codexRow jsonbText roundNumeric s.events (n.event, n.total) = _
    rw [codexRow, codexNormalized_eq h hn, Option.map_some, priorModel_eq h hlive.stored]
    rfl
  have hcounts : ∀ row ∈ (counts events).map (liveRow jsonbText s.events),
      ∀ column, IsCount (row.2 column) := by
    intro row hrow column
    obtain ⟨n, hn, rfl⟩ := List.mem_map.mp hrow
    exact isCount_extractTokenCount (count_of_mem hn).2.2.2 (.token column)
  have hincreases : (withLag Prod.snd 0 ((counts events).map (liveRow jsonbText s.events))).mapM
      (fun r => (codexIncrease r.1 r.2.2).map fun tokens => (r.2.1, tokens)) =
        some (increases ((counts events).map (liveRow jsonbText s.events))) := by
    rw [mapM_eq_some_iff, increases, List.map_map]
    apply List.map_congr_left
    intro r hr
    obtain ⟨hmem, hbefore⟩ := mem_withLag hr
    have hlag : ∀ column, IsCount (r.1 column) := by
      intro column
      rcases hbefore with hzero | ⟨row, hrow, hvalue⟩
      · rw [hzero]
        exact isCount_zero
      · rw [hvalue]
        exact hcounts row hrow column
    rw [codexIncrease_eq hlag (hcounts r.2 hmem)]
    rfl
  unfold codexModels
  rw [hnormalized]
  simp only [Option.bind_eq_bind, Option.bind_some]
  rw [hincreases, Option.bind_some, Table.select_eq_some_iff]
  intro key
  rw [hlive.models key]
  cases hsum : (groupSum (increases ((counts events).map (liveRow jsonbText s.events))))[key]? with
  | none => rfl
  | some tokens =>
      have hfit : tokens.Fit := by
        have hrow := hlive.models key
        rw [hsum] at hrow
        exact hlive.modelsFit key _ hrow
      rw [Option.map_some, if_pos hfit]
      rfl

/-! ## The daily rows -/

theorem codexRaw_stored (h : CodexReadAlike jsonbText events) (horder : ByteOrder events)
    (hlive : CodexLive jsonbText events s) :
    codexRaw jsonbText s.events.toList = (counts events).map fun n => (n.event, n.total) := by
  rw [toList_eq hlive.stored horder, codexRaw_eq h]

/-- The daily rows are rebuilt as they were just when the totals of the last counts are read
alike. -/
theorem codexDaily_eq_iff (h : CodexReadAlike jsonbText events) (horder : ByteOrder events)
    (hlive : CodexLive jsonbText events s) :
    codexDaily jsonbText roundNumeric s.events.toList = some s.tables.daily ↔
      ∀ d n, ((counts events).filter fun n => decide (n.day = d)).getLast? = some n →
        TotalAlike n.total := by
  unfold codexDaily
  rw [codexRaw_stored h horder hlive, Table.select_eq_some_iff]
  have hlookup (d : Day) : (Table.ofRows (((counts events).map fun n => (n.event, n.total)).map
      fun r => (rawDay r, r.2)))[d]? =
        (((counts events).filter fun n => decide (n.day = d)).getLast?).map Count.total := by
    rw [List.map_map]
    exact Table.lookup_ofRows_map Count.day Count.total (counts events) d
  have hday (d : Day) : ((((counts events).filter fun n => decide (n.day = d)).getLast?).map
      Count.total).map (fun usage => (codexSpend roundNumeric usage).map fun spend =>
        (⟨TranscriptSource.codex.agentId, spend⟩ : DailyRow)) = (s.tables.daily[d]?).map some ↔
      ∀ n, ((counts events).filter fun n => decide (n.day = d)).getLast? = some n →
        TotalAlike n.total := by
    rw [hlive.daily d]
    cases hlast : ((counts events).filter fun n => decide (n.day = d)).getLast? with
    | none => simp
    | some n =>
        have hn : n ∈ counts events := (List.mem_filter.mp (List.mem_of_getLast? hlast)).1
        have halike : codexSpend roundNumeric n.total = some n.usage.spend ↔ TotalAlike n.total :=
          codexSpend_eq_iff h hn
        simp only [Option.map_some, Option.some.injEq, forall_eq']
        rw [← halike]
        cases codexSpend roundNumeric n.total with
        | none => simp
        | some spend => simp
  constructor
  · intro hall d
    exact (hday d).mp (by rw [← hlookup d]; exact hall d)
  · intro hall d
    rw [hlookup d]
    exact (hday d).mpr (hall d)

/-! ## The session row -/

theorem lastKnown_of_some {read : Count → Option Int} {counted : List Count} {value : Int}
    (hlast : counted.getLast? = some n) (hread : read n = some value) :
    lastKnown read counted = some value := by
  obtain ⟨before, rfl⟩ := List.getLast?_eq_some_iff.mp hlast
  rw [lastKnown_append, hread]
  rfl

theorem lastKnown_eq_none_iff {read : Count → Option Int} {counted : List Count} :
    lastKnown read counted = none ↔ ∀ m ∈ counted, read m = none := by
  rw [lastKnown, List.getLast?_eq_none_iff, List.filterMap_eq_nil_iff]

theorem numberAt_congr {value value' : Json} {path path' : List String}
    (h : value.at? path = value'.at? path') :
    numberAt roundNumeric value path = numberAt roundNumeric value' path' := by
  unfold numberAt
  rw [h]

/-- What stands under the last call of a count. -/
theorem at?_last (info : Json) (key : String) :
    info.at? ["last_token_usage", key] = (lastTokenUsage info).bind fun last => last.at? [key] := by
  rw [lastTokenUsage, Json.at?]
  cases hlast : info.get "last_token_usage" with
  | none => rfl
  | some last =>
      cases last with
      | obj fields => rfl
      | _ => rfl

theorem contextTokens_eq (hn : n ∈ counts events) :
    n.usage.contextTokens = (lastTokenUsage n.info).map fun last =>
      saturatingSub (totalTokenCount last) (tokenAt last "reasoning_output_tokens") := by
  obtain ⟨-, -, hinfo, hextract⟩ := count_of_mem hn
  rw [extractTokenCount, hinfo] at hextract
  rw [← Option.some.inj hextract]

theorem window_eq (hn : n ∈ counts events) :
    n.usage.modelContextWindow = positiveI64At n.info ["model_context_window"] := by
  obtain ⟨-, -, hinfo, hextract⟩ := count_of_mem hn
  rw [extractTokenCount, hinfo] at hextract
  rw [← Option.some.inj hextract]

/-- The context of a count with a last call. -/
theorem codexContext_some_iff {last : Json} (h : CodexReadAlike jsonbText events)
    (hn : n ∈ counts events) (hlast : lastTokenUsage n.info = some last)
    (hfit : 0 ≤ saturatingSub (totalTokenCount last) (tokenAt last "reasoning_output_tokens")) :
    codexContext roundNumeric n.event.2.payload = some (some
        (saturatingSub (totalTokenCount last) (tokenAt last "reasoning_output_tokens"))) ↔
      (last.at? ["total_tokens"]).isSome ∧ (last.at? ["total_tokens"] = some (.int 0) →
        saturatingAdd (tokenAt last "input_tokens") (tokenAt last "output_tokens") =
          tokenAt last "reasoning_output_tokens") := by
  have hinfo := (count_of_mem hn).2.2.1
  have hfields : TokenFields last := h.lasts n hn last hlast
  have hreasoning : IsCount (tokenAt last "reasoning_output_tokens") := isCount_tokenAt last _
  have htotal : IsCount (totalTokenCount last) := isCount_totalTokenCount last
  have hpath (key : String) : n.event.2.payload.at? (["payload", "info", "last_token_usage"] ++
      [key]) = last.at? [key] := by
    show n.event.2.payload.at? ["payload", "info", "last_token_usage", key] = _
    rw [at?_info hinfo, at?_last, hlast, Option.bind_some]
  have hreason : countAt roundNumeric n.event.2.payload
      (["payload", "info", "last_token_usage"] ++ ["reasoning_output_tokens"]) =
        some (tokenAt last "reasoning_output_tokens") := by
    rw [← hfields.countAt (by decide), countAt, countAt, numberAt_congr (hpath _)]
  have hsub : saturatingSub (totalTokenCount last) (tokenAt last "reasoning_output_tokens") =
      totalTokenCount last - tokenAt last "reasoning_output_tokens" := by
    obtain ⟨h0, h1⟩ := hreasoning
    obtain ⟨h2, h3⟩ := htotal
    unfold saturatingSub i64Clamp
    unfold i64Min i64Max at *
    omega
  rw [hsub] at hfit ⊢
  unfold codexContext
  simp only [Option.bind_eq_bind]
  rw [numberAt_congr (hpath "total_tokens"), hreason]
  obtain ⟨hfield, hrange⟩ := hfields "total_tokens" (by decide)
  rcases @numberAt_eq roundNumeric _ _ hfield hrange with
    ⟨hat, hnumber⟩ | ⟨k, hk, hmax, hat, hnumber⟩
  · rw [hnumber, hat]
    simp
  · rw [hnumber, hat]
    simp only [Option.bind_some, Option.isSome_some, true_and, Option.some.injEq, Json.int.injEq]
    have hmin : i64Min ≤ k - tokenAt last "reasoning_output_tokens" := by
      obtain ⟨h0, h1⟩ := hreasoning
      unfold i64Min i64Max at *
      omega
    have hle : k - tokenAt last "reasoning_output_tokens" ≤ i64Max := by
      have h0 := hreasoning.1
      omega
    rw [bigint_eq hmin hle, Option.bind_some, Option.some.injEq, Option.some.injEq]
    by_cases hpos : 0 < k
    · have hlive : totalTokenCount last = k := by
        rw [totalTokenCount, positiveI64At_of_pos hat hpos hmax, Option.getD_some]
      rw [hlive] at hfit ⊢
      constructor
      · intro _ hzero
        omega
      · intro _
        exact max_eq_left hfit
    · have hzero : k = 0 := by omega
      subst hzero
      have hlive : totalTokenCount last =
          saturatingAdd (tokenAt last "input_tokens") (tokenAt last "output_tokens") := by
        rw [totalTokenCount, positiveI64At_zero hat, Option.getD_none]
      rw [hlive] at hfit ⊢
      have h0 := hreasoning.1
      omega

/-- The context is rebuilt as it was just when the last count has its own. -/
theorem codexContext_eq_iff (h : CodexReadAlike jsonbText events)
    (hlast : (counts events).getLast? = some n)
    (hfit : ∀ tokens ∈ n.usage.contextTokens, 0 ≤ tokens) :
    codexContext roundNumeric n.event.2.payload =
        some (lastKnown (·.usage.contextTokens) (counts events)) ↔
      ContextAlike (counts events) n := by
  have hn : n ∈ counts events := List.mem_of_getLast? hlast
  have hinfo := (count_of_mem hn).2.2.1
  cases hcall : lastTokenUsage n.info with
  | some last =>
      have hcontext : n.usage.contextTokens = some
          (saturatingSub (totalTokenCount last) (tokenAt last "reasoning_output_tokens")) := by
        rw [contextTokens_eq hn, hcall, Option.map_some]
      rw [lastKnown_of_some hlast hcontext,
        codexContext_some_iff h hn hcall (hfit _ hcontext)]
      constructor
      · rintro ⟨htotal, hzero⟩
        refine ⟨fun last' hlast' => ?_, fun last' hlast' => ?_, fun hnone => ?_⟩
        · rw [hcall] at hlast'
          exact Option.some.inj hlast' ▸ htotal
        · rw [hcall] at hlast'
          exact Option.some.inj hlast' ▸ hzero
        · rw [hcall] at hnone
          cases hnone
      · intro halike
        exact ⟨halike.total last hcall, halike.zero last hcall⟩
  | none =>
      have hrebuilt : codexContext roundNumeric n.event.2.payload = some none := by
        have hpath : n.event.2.payload.at? (["payload", "info", "last_token_usage"] ++
            ["total_tokens"]) = none := by
          show n.event.2.payload.at? ["payload", "info", "last_token_usage", "total_tokens"] = _
          rw [at?_info hinfo, at?_last, hcall, Option.bind_none]
        unfold codexContext numberAt
        simp only [hpath, Option.bind_eq_bind, Option.bind_some]
      rw [hrebuilt, Option.some.injEq, eq_comm, lastKnown_eq_none_iff]
      have hread : ∀ m ∈ counts events,
          (m.usage.contextTokens = none ↔ lastTokenUsage m.info = none) := by
        intro m hm
        rw [contextTokens_eq hm, Option.map_eq_none_iff]
      constructor
      · intro hall
        refine ⟨fun last hlast' => ?_, fun last hlast' => ?_, fun _ m hm => ?_⟩
        · rw [hcall] at hlast'
          cases hlast'
        · rw [hcall] at hlast'
          cases hlast'
        · exact (hread m hm).mp (hall m hm)
      · intro halike m hm
        exact (hread m hm).mpr (halike.kept hcall m hm)

/-- The window is rebuilt as it was just when the last count has its own. -/
theorem codexWindow_eq_iff (h : CodexReadAlike jsonbText events)
    (hlast : (counts events).getLast? = some n) :
    positiveAt roundNumeric n.event.2.payload ["payload", "info", "model_context_window"] =
        some (lastKnown (·.usage.modelContextWindow) (counts events)) ↔
      WindowAlike (counts events) n := by
  have hn : n ∈ counts events := List.mem_of_getLast? hlast
  have hinfo := (count_of_mem hn).2.2.1
  have hrebuilt : positiveAt roundNumeric n.event.2.payload
      ["payload", "info", "model_context_window"] =
        some (positiveI64At n.info ["model_context_window"]) := by
    rw [← positiveAt_eq (h.windows n hn), positiveAt, positiveAt, numberAt_congr (at?_info hinfo _)]
  rw [hrebuilt, Option.some.injEq]
  unfold WindowAlike
  cases hwindow : positiveI64At n.info ["model_context_window"] with
  | some window =>
      have hread : n.usage.modelContextWindow = some window := by rw [window_eq hn, hwindow]
      rw [lastKnown_of_some hlast hread]
      simp
  | none =>
      rw [eq_comm, lastKnown_eq_none_iff]
      constructor
      · intro hall _ m hm
        rw [← window_eq hm]
        exact hall m hm
      · intro hkept m hm
        rw [window_eq hm]
        exact hkept rfl m hm

/-- The token and context fields of the session row are rebuilt as they were just when the last
count has all of them. -/
theorem codexSessions_eq_iff (h : CodexReadAlike jsonbText events) (horder : ByteOrder events)
    (hlive : CodexLive jsonbText events s) :
    (∃ row, codexSessions jsonbText roundNumeric s.events.toList = some row ∧
        s.tables.session.map usageFields = row.map usageFields) ↔
      ∀ n, (counts events).getLast? = some n → TotalAlike n.total ∧
        ContextAlike (counts events) n ∧ WindowAlike (counts events) n := by
  unfold codexSessions
  rw [codexRaw_stored h horder hlive, List.getLast?_map, hlive.session, countedSession]
  cases hlast : (counts events).getLast? with
  | none => simp
  | some n =>
      have hn : n ∈ counts events := List.mem_of_getLast? hlast
      have hfit : ∀ tokens ∈ n.usage.contextTokens, 0 ≤ tokens := by
        intro tokens htokens
        have hsession := hlive.session
        rw [countedSession, hlast, Option.map_some] at hsession
        have hrow := (hlive.sessionFits _ hsession).context tokens
        exact hrow (lastKnown_of_some hlast htokens)
      have htotal : codexSpend roundNumeric n.total = some n.usage.spend ↔ TotalAlike n.total :=
        codexSpend_eq_iff h hn
      have hcontext : codexContext roundNumeric n.event.2.payload =
          some (lastKnown (·.usage.contextTokens) (counts events)) ↔
            ContextAlike (counts events) n :=
        codexContext_eq_iff h hlast hfit
      have hwindow : positiveAt roundNumeric n.event.2.payload
          ["payload", "info", "model_context_window"] =
            some (lastKnown (·.usage.modelContextWindow) (counts events)) ↔
              WindowAlike (counts events) n := codexWindow_eq_iff h hlast
      simp only [Option.map_some, Option.bind_eq_bind, Option.some.injEq, forall_eq']
      rw [← htotal, ← hcontext, ← hwindow]
      constructor
      · rintro ⟨row, hrow, hfields⟩
        obtain ⟨spend, hspend, hrow⟩ := Option.bind_eq_some_iff.mp hrow
        obtain ⟨context, hcontext', hrow⟩ := Option.bind_eq_some_iff.mp hrow
        obtain ⟨window, hwindow', hrow⟩ := Option.bind_eq_some_iff.mp hrow
        obtain rfl := Option.some.inj hrow
        simp only [usageFields, sessionRow, Option.map_some, Option.some.injEq,
          Prod.mk.injEq] at hfields
        obtain ⟨rfl, rfl, rfl⟩ := hfields
        exact ⟨hspend, hcontext', hwindow'⟩
      · rintro ⟨hspend, hcontext', hwindow'⟩
        refine ⟨some (sessionRow .codex n.event n.usage.spend _ _ none), ?_, rfl⟩
        rw [hspend, Option.bind_some, hcontext', Option.bind_some, hwindow', Option.bind_some]

/-- **When a Codex session is rebuilt as it was.** -/
theorem codex_rebuild_iff (h : CodexReadAlike jsonbText events) (horder : ByteOrder events)
    (hlive : CodexLive jsonbText events s) :
    (∃ rows, legacyRows jsonbText roundNumeric .codex s.events = some rows ∧
        SameRows s.tables rows) ↔ CodexKept events := by
  have hmodels : codexModels jsonbText roundNumeric s.events = some s.tables.models :=
    codexModels_eq h horder hlive
  have hsessions : (∃ row, codexSessions jsonbText roundNumeric s.events.toList = some row ∧
        s.tables.session.map usageFields = row.map usageFields) ↔ _ :=
    codexSessions_eq_iff h horder hlive
  have hdays : codexDaily jsonbText roundNumeric s.events.toList = some s.tables.daily ↔ _ :=
    codexDaily_eq_iff h horder hlive
  constructor
  · rintro ⟨rows, hrows, hsame⟩
    unfold legacyRows at hrows
    obtain ⟨session, hsession, hrows⟩ := Option.bind_eq_some_iff.mp hrows
    obtain ⟨daily, hdaily, hrows⟩ := Option.bind_eq_some_iff.mp hrows
    obtain ⟨models, -, hrows⟩ := Option.bind_eq_some_iff.mp hrows
    obtain rfl := Option.some.inj hrows
    have hlast := hsessions.mp ⟨session, hsession, hsame.session⟩
    have hsameDaily : s.tables.daily = daily := hsame.daily
    rw [← hsameDaily] at hdaily
    exact ⟨hdays.mp hdaily, fun n hn => (hlast n hn).2.1, fun n hn => (hlast n hn).2.2⟩
  · intro hkept
    have hlast : ∀ n, (counts events).getLast? = some n → TotalAlike n.total ∧
        ContextAlike (counts events) n ∧ WindowAlike (counts events) n := by
      intro n hn
      -- the last count is the last of its day
      have hday : ((counts events).filter fun m => decide (m.day = n.day)).getLast? = some n := by
        obtain ⟨before, hbefore⟩ := List.getLast?_eq_some_iff.mp hn
        rw [hbefore, List.filter_append, List.filter_cons_of_pos (by simp), List.filter_nil,
          List.getLast?_concat]
      exact ⟨hkept.totals _ n hday, hkept.contexts n hn, hkept.windows n hn⟩
    obtain ⟨session, hsession, hfields⟩ := hsessions.mpr hlast
    refine ⟨⟨session, s.tables.daily, s.tables.models, ∅⟩, ?_, ⟨hfields, rfl, rfl⟩⟩
    unfold legacyRows
    simp only [Option.bind_eq_bind]
    rw [hsession, Option.bind_some, hdays.mpr hkept.totals, Option.bind_some, hmodels,
      Option.bind_some]

end Sulion.Usage.Legacy
