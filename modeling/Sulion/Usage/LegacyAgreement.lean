import Sulion.Usage.ClaudeRebuild
import Sulion.Usage.CodexRebuild

set_option autoImplicit false

/-! # The rebuild against live ingest

`rebuild_legacy` on the stored events of a session leaves the rows of live ingest as they are just
when `RowsKept` holds of the events, for every session whose records both sides read alike.
-/

namespace Sulion.Usage.Legacy

open Rust Ingest
open Claude

variable {jsonbText : Json → String} {roundNumeric : String → Option Int}
  {source : TranscriptSource} {events : List SourceEvent} {s : UsageState}

/-- Both sides read the records of the session alike. -/
def ReadAlike (jsonbText : Json → String) (source : TranscriptSource) (events : List SourceEvent) :
    Prop :=
  match source with
  | .codex => NoResponses events ∧ CodexReadAlike jsonbText events
  | .claudeCode => ClaudeReadAlike jsonbText events

/-- What the rows keep beside the sums is what the last records say. -/
def RowsKept (jsonbText : Json → String) (source : TranscriptSource) (events : List SourceEvent) :
    Prop :=
  match source with
  | .codex => CodexKept events
  | .claudeCode => ClaudeKept jsonbText events

/-- The rows that the queries make for a session without records. -/
theorem legacyRows_nil (source : TranscriptSource) :
    legacyRows jsonbText roundNumeric source ∅ = some .empty := by
  cases source with
  | codex => rfl
  | claudeCode => rfl

theorem rebuild_iff (horder : ByteOrder events)
    (htimes : events.Pairwise fun e e' => e.2.timestamp ≤ e'.2.timestamp)
    (hread : ReadAlike jsonbText source events)
    (hs : ingestAll jsonbText source .empty events = some s) :
    (∃ rows, legacyRows jsonbText roundNumeric source s.events = some rows ∧
      SameRows s.tables rows) ↔ RowsKept jsonbText source events := by
  cases source with
  | codex =>
      obtain ⟨hkinds, hread⟩ := hread
      have hlive : CodexLive jsonbText ([] ++ events) s :=
        CodexLive.run codexLive_empty horder hkinds hs
      exact codex_rebuild_iff hread horder hlive
  | claudeCode =>
      have hread : ClaudeReadAlike jsonbText events := hread
      have hlive : ClaudeLive ([] ++ events) s :=
        ClaudeLive.run claudeLive_empty horder htimes hread.keys hread.models hread.charges
          hread.live hs
      exact claude_rebuild_iff hread horder hlive

/-- The rows of a session without events are left alone, and none would be made for it. -/
theorem rebuildLegacy_iff (hempty : s.events = ∅ → s.tables = .empty) :
    (∃ db, rebuildLegacy jsonbText roundNumeric source s.events s.tables = some db ∧
        SameRows s.tables db) ↔
      ∃ rows, legacyRows jsonbText roundNumeric source s.events = some rows ∧
        SameRows s.tables rows := by
  unfold rebuildLegacy
  by_cases hnone : s.events.isEmpty = true
  · rw [if_pos hnone]
    rw [Std.ExtTreeMap.isEmpty_iff] at hnone
    rw [hnone, legacyRows_nil, hempty hnone]
  · rw [if_neg hnone]
    constructor
    · rintro ⟨db, hdb, hsame⟩
      obtain ⟨rows, hrows, rfl⟩ := Option.map_eq_some_iff.mp hdb
      exact ⟨rows, hrows, hsame.session, hsame.daily, hsame.models⟩
    · rintro ⟨rows, hrows, hsame⟩
      rw [hrows]
      exact ⟨_, rfl, hsame.session, hsame.daily, hsame.models⟩

theorem ingestUsage_events {s' : UsageState} {e : SourceEvent}
    (h : ingestUsage jsonbText source s e = some s') : s'.events = s.events.insert e.1 e.2 := by
  unfold ingestUsage at h
  split at h
  · obtain rfl := Option.some.inj h
    rfl
  · obtain ⟨tables, -, rfl⟩ := Option.map_eq_some_iff.mp h
    rfl

/-- Ingested records are stored. -/
theorem ingestAll_ne_empty {s' : UsageState} (h : ingestAll jsonbText source s events = some s')
    (hsome : events ≠ [] ∨ s.events ≠ ∅) : s'.events ≠ ∅ := by
  induction events generalizing s with
  | nil =>
      obtain rfl := Option.some.inj h
      exact hsome.resolve_left fun hne => hne rfl
  | cons e events ih =>
      obtain ⟨s₁, hs₁, hrest⟩ := Option.bind_eq_some_iff.mp h
      refine ih hrest (.inr ?_)
      rw [ingestUsage_events hs₁]
      exact Std.ExtTreeMap.insert_ne_empty

/-- The totals of a count in these records. -/
def totalsOf (input : Int) : Json :=
  .obj [("input_tokens", .int input), ("total_tokens", .int input)]

/-- A `token_count` event with these totals, and this usage of the last call. -/
def countRecord (byteOffset : Int) (input : Int) (last : List (String × Json)) : SourceEvent :=
  (byteOffset, ⟨0, .obj
    [("type", .str "event_msg"),
      ("payload", .obj
        [("type", .str "token_count"),
          ("info", .obj (("total_token_usage", totalsOf input) :: last))])], none⟩)

/-- A call of 90 tokens. -/
def lastCall : List (String × Json) := [("last_token_usage", .obj [("total_tokens", .int 90)])]

/-- Two counts, both with the usage of their last calls. -/
def reportedCounts : List SourceEvent := [countRecord 0 90 lastCall, countRecord 10 180 lastCall]

theorem mem_reportedCounts {n : Count} (hn : n ∈ counts reportedCounts) :
    ∃ input : Int, 0 < input ∧ input ≤ 180 ∧ n.total = totalsOf input ∧
      n.info = .obj (("total_token_usage", totalsOf input) :: lastCall) := by
  obtain ⟨e, he, hof⟩ := mem_counts_iff.mp hn
  have hinfo := (countOf_eq_some_iff.mp hof).2.2.1
  rcases List.mem_cons.mp he with rfl | he
  · obtain ⟨hinfo, htotal⟩ := Prod.mk.inj (Option.some.inj hinfo)
    exact ⟨90, by decide, by decide, htotal.symm, hinfo.symm⟩
  · rw [List.mem_singleton.mp he] at hinfo
    obtain ⟨hinfo, htotal⟩ := Prod.mk.inj (Option.some.inj hinfo)
    exact ⟨180, by decide, by decide, htotal.symm, hinfo.symm⟩

theorem tokenFields_of {fields : List (String × Json)}
    (h : ∀ field ∈ fields, ∃ k : Int, 0 ≤ k ∧ k ≤ i64Max ∧ field.2 = .int k) :
    TokenFields (.obj fields) := by
  have hat {key : String} {json : Json} (hjson : (Json.obj fields).at? [key] = some json) :
      ∃ k : Int, 0 ≤ k ∧ k ≤ i64Max ∧ json = .int k := by
    simp only [Json.at?, Json.get, Option.bind_fun_some] at hjson
    have hmem : (key, json) ∈ fields := by
      obtain ⟨before, after, rfl, -⟩ := List.lookup_eq_some_iff.mp hjson
      simp
    exact h (key, json) hmem
  intro key _
  constructor
  · intro json hjson
    obtain ⟨k, hk, -, rfl⟩ := hat hjson
    exact ⟨k, hk, rfl⟩
  · intro k hk
    obtain ⟨k', -, hmax, heq⟩ := hat hk
    cases heq
    exact hmax

theorem tokenFields_totalsOf {input : Int} (hpos : 0 < input) (hle : input ≤ 180) :
    TokenFields (totalsOf input) := by
  have hmax : input ≤ i64Max := by
    unfold i64Max
    omega
  apply tokenFields_of
  intro field hfield
  rcases List.mem_cons.mp hfield with rfl | hfield
  · exact ⟨input, hpos.le, hmax, rfl⟩
  · rw [List.mem_singleton.mp hfield]
    exact ⟨input, hpos.le, hmax, rfl⟩

theorem reportedCounts_alike : CodexReadAlike (fun _ => "") reportedCounts where
  selected := by
    unfold SelectsTotal
    decide
  contexts := by decide
  totals n hn := by
    obtain ⟨input, hpos, hle, htotal, -⟩ := mem_reportedCounts hn
    rw [htotal]
    exact tokenFields_totalsOf hpos hle
  lasts n hn last hlast := by
    obtain ⟨input, -, -, -, hinfo⟩ := mem_reportedCounts hn
    rw [hinfo] at hlast
    obtain rfl := Option.some.inj hlast
    apply tokenFields_of
    intro field hfield
    rw [List.mem_singleton.mp hfield]
    exact ⟨90, by decide, by decide, rfl⟩
  cached n hn := by
    obtain ⟨input, -, -, htotal, -⟩ := mem_reportedCounts hn
    have hinput := (isCount_tokenAt n.total "input_tokens").1
    have hcached : tokenAt n.total "cached_input_tokens" = 0 := by rw [htotal]; rfl
    have hwrites : tokenAt n.total "cache_write_input_tokens" = 0 := by rw [htotal]; rfl
    rw [hcached, hwrites]
    unfold i64Min
    omega
  windows n hn json hjson := by
    obtain ⟨input, -, -, -, hinfo⟩ := mem_reportedCounts hn
    rw [hinfo] at hjson
    cases hjson

theorem reportedCounts_kept : CodexKept reportedCounts := by
  have hwindow : ∀ m ∈ counts reportedCounts,
      positiveI64At m.info ["model_context_window"] = none := by
    intro m hm
    obtain ⟨input, -, -, -, hinfo⟩ := mem_reportedCounts hm
    rw [hinfo]
    rfl
  constructor
  · intro d n hn
    have hmem := (List.mem_filter.mp (List.mem_of_getLast? hn)).1
    obtain ⟨input, hpos, hle, htotal, -⟩ := mem_reportedCounts hmem
    rw [htotal]
    refine ⟨fun hzero => ?_, fun hnone => ?_⟩
    · have hinput : input = 0 := Json.int.inj (Option.some.inj hzero)
      omega
    · cases hnone
  · intro n hn
    obtain ⟨input, -, -, -, hinfo⟩ := mem_reportedCounts (List.mem_of_getLast? hn)
    have hlast : lastTokenUsage n.info = some (.obj [("total_tokens", .int 90)]) := by
      rw [hinfo]
      rfl
    refine ⟨fun last h => ?_, fun last h hzero => ?_, fun h => ?_⟩
    · rw [hlast] at h
      obtain rfl := Option.some.inj h
      rfl
    · rw [hlast] at h
      obtain rfl := Option.some.inj h
      cases Json.int.inj (Option.some.inj hzero)
    · rw [hlast] at h
      cases h
  · intro n _ _ m hm
    exact hwindow m hm

/-- Two counts, the second without the usage of the last call. -/
def unreportedCounts : List SourceEvent := [countRecord 0 90 lastCall, countRecord 10 180 []]

end Sulion.Usage.Legacy
