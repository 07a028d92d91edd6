import Sulion.Usage.LegacyRebuild

set_option autoImplicit false

/-! # A Codex session without response records

Live ingest of such a session is a fold over its `token_count` events. `CodexLive` says what the
fold has left after a run of records: the session row and the daily rows of the last counts, and
for each day and model the increases from one count to the next. The queries of the rebuild read
the same from the stored events, as long as they read the events alike (`CodexReadAlike`).
-/

namespace Sulion.Usage.Legacy

open Rust Ingest
open Claude (Stored)

variable {jsonbText : Json → String} {roundNumeric : String → Option Int}
  {events : List SourceEvent} {s s' : UsageState} {e : SourceEvent}

/-! ## Token counts -/

/-- A `token_count` event that live ingest charges, with what it reads of it. -/
structure Count where
  event : SourceEvent
  info : Json
  total : Json
  usage : UsageUpdate

def countOf (e : SourceEvent) : Option Count :=
  if e.2.subtype = some inheritedHistory then none
  else
    match tokenCountInfo e.2.payload, extractTokenCount e.2.payload with
    | some (info, total), some usage => some ⟨e, info, total, usage⟩
    | _, _ => none

def counts (events : List SourceEvent) : List Count := events.filterMap countOf

def Count.day (n : Count) : Day := n.event.2.timestamp.dateNaive

theorem countOf_eq_some_iff {n : Count} : countOf e = some n ↔
    e.2.subtype ≠ some inheritedHistory ∧ n.event = e ∧
      tokenCountInfo e.2.payload = some (n.info, n.total) ∧
      extractTokenCount e.2.payload = some n.usage := by
  unfold countOf
  by_cases hinherited : e.2.subtype = some inheritedHistory
  · simp [hinherited]
  · rw [if_neg hinherited]
    cases hinfo : tokenCountInfo e.2.payload with
    | none => simp
    | some found =>
        obtain ⟨info, total⟩ := found
        cases hextract : extractTokenCount e.2.payload with
        | none => simp
        | some usage =>
            simp only [Option.some.injEq, Prod.mk.injEq]
            constructor
            · rintro rfl
              exact ⟨hinherited, rfl, ⟨rfl, rfl⟩, rfl⟩
            · rintro ⟨-, rfl, ⟨rfl, rfl⟩, rfl⟩
              rfl

theorem mem_counts_iff {n : Count} : n ∈ counts events ↔ ∃ e ∈ events, countOf e = some n :=
  List.mem_filterMap

theorem counts_append (events : List SourceEvent) (e : SourceEvent) :
    counts (events ++ [e]) = counts events ++ (countOf e).toList := by
  rw [counts, List.filterMap_append]
  cases h : countOf e <;> simp [counts, h]

/-- No record of the session is a response record. -/
def NoResponses (events : List SourceEvent) : Prop :=
  ∀ e ∈ events, codexRecordKind e.2.payload ≠ some "token_usage_record"

theorem extractCodexUsage_of_noResponse
    (h : codexRecordKind e.2.payload ≠ some "token_usage_record") :
    extractCodexUsage e.2.payload = extractTokenCount e.2.payload := by
  rw [extractCodexUsage]
  cases hpayload : e.2.payload.get "payload" with
  | none => simp [extractTokenCount, tokenCountInfo, hpayload]
  | some payload => simp [h]

theorem countOf_eq_none_iff :
    countOf e = none ↔ e.2.subtype = some inheritedHistory ∨
      extractTokenCount e.2.payload = none := by
  have hmap : extractTokenCount e.2.payload = none ↔ tokenCountInfo e.2.payload = none :=
    Option.map_eq_none_iff
  unfold countOf
  by_cases hinherited : e.2.subtype = some inheritedHistory
  · simp [hinherited]
  · rw [if_neg hinherited]
    cases hextract : extractTokenCount e.2.payload with
    | none =>
        rw [hmap.mp hextract]
        simp
    | some usage =>
        cases hinfo : tokenCountInfo e.2.payload with
        | none => rw [hmap.mpr hinfo] at hextract; cases hextract
        | some found => simp [hinherited]

/-- The update of a count is a cumulative total without model or message. -/
theorem count_usage {value : Json} {usage : UsageUpdate}
    (h : extractTokenCount value = some usage) :
    usage.mode = .cumulative ∧ usage.messageId = none ∧ usage.model = none := by
  obtain ⟨⟨info, total⟩, _, rfl⟩ := Option.map_eq_some_iff.mp h
  exact ⟨rfl, rfl, rfl⟩

/-! ## What live ingest leaves -/

/-- The day and model a count is charged to, with its counters. -/
def liveRow (jsonbText : Json → String) (stored : EventTable) (n : Count) :
    (Day × String) × Tokens :=
  ((n.day, (recordedModel jsonbText stored n.event.1).getD unknownModel), n.usage.spend.tokens)

/-- What each row adds to the one before. -/
def increases (rows : List ((Day × String) × Tokens)) : List ((Day × String) × Tokens) :=
  (withLag Prod.snd 0 rows).map fun r =>
    (r.2.1, fun column => max (r.2.2 column - r.1 column) 0)

theorem increases_append (rows : List ((Day × String) × Tokens)) (row : (Day × String) × Tokens) :
    increases (rows ++ [row]) = increases rows ++
      [(row.1,
        fun column => max (row.2 column - ((rows.getLast?.map Prod.snd).getD 0) column) 0)] := by
  rw [increases, withLag_append, List.map_append]
  rfl

/-- The last value that some count has. -/
def lastKnown (read : Count → Option Int) (counted : List Count) : Option Int :=
  (counted.filterMap read).getLast?

theorem lastKnown_append (read : Count → Option Int) (counted : List Count) (n : Count) :
    lastKnown read (counted ++ [n]) = (read n).or (lastKnown read counted) := by
  unfold lastKnown
  rw [List.filterMap_append]
  cases h : read n with
  | none => simp [h]
  | some value => simp [h]

/-- The session row of the counts so far. -/
def countedSession (counted : List Count) : Option SessionRow :=
  counted.getLast?.map fun n =>
    sessionRow .codex n.event n.usage.spend (lastKnown (·.usage.contextTokens) counted)
      (lastKnown (·.usage.modelContextWindow) counted) none

/-- The usage rows after a run of records. -/
structure CodexLive (jsonbText : Json → String) (events : List SourceEvent) (s : UsageState) :
    Prop where
  stored : Stored s events
  session : s.tables.session = countedSession (counts events)
  sessionFits : ∀ row ∈ s.tables.session, row.Fit
  daily : ∀ d : Day, s.tables.daily[d]? =
    ((counts events).filter fun n => decide (n.day = d)).getLast?.map fun n =>
      ⟨TranscriptSource.codex.agentId, n.usage.spend⟩
  models : ∀ key : Day × String, s.tables.models[key]? =
    ((groupSum (increases ((counts events).map (liveRow jsonbText s.events))))[key]?).map
      fun tokens => ⟨TranscriptSource.codex.agentId, tokens, none⟩
  modelsFit : ∀ (key : Day × String) (row : ModelRow), s.tables.models[key]? = some row →
    row.tokens.Fit

theorem codexLive_empty : CodexLive jsonbText [] .empty where
  stored k row := by simp [UsageState.empty]
  session := rfl
  sessionFits row h := by cases h
  daily d := by simp [UsageState.empty, UsageTables.empty, counts]
  models key := by simp [UsageState.empty, UsageTables.empty, counts, increases, withLag, groupSum,
    Table.mergeList]
  modelsFit key row h := by simp [UsageState.empty, UsageTables.empty] at h

/-- A later record does not change the model of an earlier one. -/
theorem recordedModel_insert_of_lt {stored : EventTable} {offset : Int} {row : EventRow} {k : Int}
    (hlt : offset < k) :
    recordedModel jsonbText (stored.insert k row) offset = recordedModel jsonbText stored
      offset := by
  have hlookup : ∀ (k' : Int), k' < offset + 1 → (stored.insert k row)[k']? = stored[k']? :=
    fun k' hk' => Table.lookup_insert_ne _ _ (by omega)
  have hsame : ∀ p, lastEventBefore (stored.insert k row) (offset + 1) p
      = lastEventBefore stored (offset + 1) p := by
    intro p
    cases hfound : lastEventBefore stored (offset + 1) p with
    | none =>
        rw [lastEventBefore_eq_none_iff] at hfound ⊢
        intro k' row' hk' hlt'
        rw [hlookup k' hlt'] at hk'
        exact hfound k' row' hk' hlt'
    | some found =>
        obtain ⟨k₀, row₀⟩ := found
        obtain ⟨hrow, hlt₀, hp, hlast⟩ := lastEventBefore_eq_some_iff.mp hfound
        refine lastEventBefore_eq_some_iff.mpr ⟨?_, hlt₀, hp, fun k' row' hk' hlt' hp' => ?_⟩
        · rw [hlookup k₀ hlt₀, hrow]
        · rw [hlookup k' hlt'] at hk'
          exact hlast k' row' hk' hlt' hp'
  rw [recordedModel, recordedModel, hsame]

/-- The rows of the earlier counts after one more record. -/
theorem map_liveRow_insert (hlt : ∀ e' ∈ events, e'.1 < e.1) {stored : EventTable} :
    (counts events).map (liveRow jsonbText (stored.insert e.1 e.2))
      = (counts events).map (liveRow jsonbText stored) := by
  apply List.map_congr_left
  intro n hn
  obtain ⟨e', he', hof⟩ := mem_counts_iff.mp hn
  have hevent : n.event = e' := (countOf_eq_some_iff.mp hof).2.1
  rw [liveRow, liveRow, recordedModel_insert_of_lt (by rw [hevent]; exact hlt e' he')]

/-- **A record that is no count** leaves the usage rows. -/
theorem CodexLive.uncounted (h : CodexLive jsonbText events s) (hlt : ∀ e' ∈ events, e'.1 < e.1)
    (hnone : countOf e = none) :
    CodexLive jsonbText (events ++ [e]) ⟨s.events.insert e.1 e.2, s.tables⟩ := by
  have hcounts : counts (events ++ [e]) = counts events := by
    rw [counts_append, hnone]
    exact List.append_nil _
  refine ⟨h.stored.insert hlt, ?_, h.sessionFits, ?_, ?_, h.modelsFit⟩
  · rw [hcounts]
    exact h.session
  · rw [hcounts]
    exact h.daily
  · rw [hcounts, map_liveRow_insert hlt]
    exact h.models

/-! ### Charging a count -/

/-- What an increase over `before` adds to a bucket. -/
def increaseOver (before : Tokens) (n : Count) : Tokens :=
  fun column => max (n.usage.spend (.token column) - before column) 0

/-- The session row a count leaves behind the stored one. -/
def countedRow (old : Option SessionRow) (n : Count) : SessionRow :=
  sessionRow .codex n.event n.usage.spend (n.usage.contextTokens.or (old.bind (·.contextTokens)))
    (n.usage.modelContextWindow.or (old.bind (·.modelContextWindow))) none

/-- The model row a count leaves in its bucket. -/
def countedModel (old : Option ModelRow) (before : Tokens) (n : Count) : ModelRow :=
  ⟨TranscriptSource.codex.agentId, old.elim 0 ModelRow.tokens + increaseOver before n,
    old.bind (·.lastUsageMessageId)⟩

/-- The counters of the stored session row. -/
def spentBefore (old : Option SessionRow) : Tokens := old.elim 0 (·.spend.tokens)

theorem dailyDelta_count {n : Count} {old : Option SessionRow} (hcount : countOf e = some n)
    (hfit : ∀ row ∈ old, row.Fit) :
    dailyDelta n.usage (old.map SessionRow.stored) = increaseOver (spentBefore old) n := by
  obtain ⟨_, _, _, hextract⟩ := countOf_eq_some_iff.mp hcount
  have hspend := isCount_extractTokenCount hextract
  have hbefore : ∀ column, IsCount (spentBefore old column) := by
    intro column
    cases hold : old with
    | none => exact isCount_zero
    | some row => exact (Spend.fit_iff.mp (hfit row hold).spend) (.token column)
  have hprevious : ∀ column, (old.map SessionRow.stored).elim 0 (fun row => row.tokens column)
      = spentBefore old column := by
    intro column
    cases old <;> rfl
  funext column
  simp only [dailyDelta, (count_usage hextract).1, hprevious, increaseOver]
  obtain ⟨h0, h1⟩ := hspend (.token column)
  obtain ⟨h2, h3⟩ := hbefore column
  congr 1
  unfold saturatingSub i64Clamp i64Min i64Max at *
  omega

/-- **Charging a count**, when every statement succeeds. -/
theorem chargeUsage_count {n : Count} {db db' : UsageTables} {stored : EventTable}
    (hcount : countOf e = some n) (hfit : ∀ row ∈ db.session, row.Fit)
    (hbehind : ∀ row ∈ db.session, row.lastByteOffset < e.1 ∧ row.lastUsageMessageId = none ∧
      row.codexResponseRecords = false)
    (h : chargeUsage jsonbText db stored .codex e.1 e.2.timestamp n.usage
      (db.session.map SessionRow.stored) false = some db') :
    db'.session = some (countedRow db.session n) ∧ (countedRow db.session n).Fit ∧
      db'.daily = db.daily.insert n.day ⟨TranscriptSource.codex.agentId, n.usage.spend⟩ ∧
      ∃ row, row = countedModel (db.models[(liveRow jsonbText stored n).1]?)
        (spentBefore db.session) n ∧
        row.tokens.Fit ∧ db'.models = db.models.insert (liveRow jsonbText stored n).1 row := by
  obtain ⟨_, hevent, _, hextract⟩ := countOf_eq_some_iff.mp hcount
  obtain ⟨hmode, hid, hmodel⟩ := count_usage hextract
  have hstore : ∀ db₁, storeUsage db .codex e.1 e.2.timestamp n.usage false = some db₁ →
      (countedRow db.session n).Fit ∧
        db₁ = { db with session := some (countedRow db.session n) } := by
    intro db₁ h₁
    cases hold : db.session with
    | none =>
        have hrow : proposedRow .codex e.1 e.2.timestamp n.usage false = countedRow none n := by
          simp [proposedRow, countedRow, sessionRow, hevent, hid]
        simp only [storeUsage, hold, hrow] at h₁
        split at h₁
        · rename_i hfits
          exact ⟨hfits.2, (Option.some.inj h₁).symm⟩
        · cases h₁
    | some row =>
        obtain ⟨hlt, hmessage, hrecords⟩ := hbehind row hold
        have hrow : row.upsert (proposedRow .codex e.1 e.2.timestamp n.usage false)
            (decide (n.usage.mode = .delta)) = countedRow (some row) n := by
          simp [hmode, SessionRow.upsert, proposedRow, countedRow, sessionRow, hevent, hid,
            hmessage,
            hrecords]
        simp only [storeUsage, hold, if_pos hlt, hrow] at h₁
        split at h₁
        · rename_i hfits
          exact ⟨hfits.2, (Option.some.inj h₁).symm⟩
        · cases h₁
  simp only [chargeUsage, hmodel, Option.isNone_none, and_true, if_true, Option.none_or,
    Option.bind_eq_bind] at h
  obtain ⟨db₁, h₁, h⟩ := Option.bind_eq_some_iff.mp h
  obtain ⟨hrowFit, rfl⟩ := hstore db₁ h₁
  obtain ⟨db₂, h₂, h⟩ := Option.bind_eq_some_iff.mp h
  rw [dailyDelta_count hcount hfit, hid] at h₂
  have hkey : (liveRow jsonbText stored n).1
      = (e.2.timestamp.dateNaive, (recordedModel jsonbText stored e.1).getD unknownModel) := by
    rw [liveRow, Count.day, hevent]
  have hadded : ∀ row, row = countedModel (db.models[(liveRow jsonbText stored n).1]?)
      (spentBefore db.session) n → db₂ = { db with
        session := some (countedRow db.session n)
        models := db.models.insert (liveRow jsonbText stored n).1 row } ∧ row.tokens.Fit := by
    rintro row rfl
    rw [hkey]
    unfold addModelDaily at h₂
    cases hold : db.models[(e.2.timestamp.dateNaive,
        (recordedModel jsonbText stored e.1).getD unknownModel)]? with
    | none =>
        simp only [hold] at h₂
        split at h₂
        · rename_i hfits
          simpa [countedModel] using ⟨(Option.some.inj h₂).symm, hfits.2⟩
        · cases h₂
    | some old =>
        simp only [hold] at h₂
        split at h₂
        · rename_i hfits
          simpa [countedModel] using ⟨(Option.some.inj h₂).symm, hfits.2⟩
        · cases h₂
  obtain ⟨hdb₂, htokens⟩ := hadded _ rfl
  subst hdb₂
  cases h
  refine ⟨rfl, hrowFit, ?_, _, rfl, htokens, rfl⟩
  simp only [snapshotDaily, Count.day, hevent]
  rfl

/-- **A count keeps the rows those of the counts so far.** -/
theorem CodexLive.counted {n : Count} {tables : UsageTables} (h : CodexLive jsonbText events s)
    (hlt : ∀ e' ∈ events, e'.1 < e.1) (hcount : countOf e = some n)
    (hcharge : chargeUsage jsonbText s.tables
      (s.events.insert e.1 e.2) .codex e.1 e.2.timestamp n.usage
      (s.tables.session.map SessionRow.stored) false = some tables) :
    CodexLive jsonbText (events ++ [e]) ⟨s.events.insert e.1 e.2, tables⟩ := by
  have hcounts : counts (events ++ [e]) = counts events ++ [n] := by
    rw [counts_append, hcount]
    rfl
  have hbehind : ∀ row ∈ s.tables.session, row.lastByteOffset < e.1 ∧
      row.lastUsageMessageId = none ∧
      row.codexResponseRecords = false := by
    intro row hrow
    rw [h.session] at hrow
    obtain ⟨m, hm, rfl⟩ := Option.map_eq_some_iff.mp hrow
    obtain ⟨e', he', hof⟩ := mem_counts_iff.mp (List.mem_of_getLast? hm)
    refine ⟨?_, rfl, rfl⟩
    show m.event.1 < e.1
    rw [(countOf_eq_some_iff.mp hof).2.1]
    exact hlt e' he'
  obtain ⟨hsession, hfit, hdaily, row, hrow, hrowFit, hmodels⟩ :=
    chargeUsage_count hcount h.sessionFits hbehind hcharge
  have hold : ∀ read : Count → Option Int, ∀ field : SessionRow → Option Int,
      (∀ (m : Count) (counted : List Count), field (sessionRow .codex m.event m.usage.spend
        (lastKnown (·.usage.contextTokens) counted) (lastKnown (·.usage.modelContextWindow) counted)
          none) = lastKnown read counted) →
      s.tables.session.bind field = lastKnown read (counts events) := by
    intro read field hfield
    rw [h.session, countedSession]
    rcases List.eq_nil_or_concat (counts events) with hnil | ⟨before, m, hlast⟩
    · simp [hnil, lastKnown]
    · rw [hlast, List.concat_eq_append, List.getLast?_concat, Option.map_some,
        Option.bind_some, hfield]
  refine ⟨h.stored.insert hlt, ?_, ?_, ?_, ?_, ?_⟩
  · rw [hcounts, countedSession, List.getLast?_concat, Option.map_some, lastKnown_append,
      lastKnown_append]
    show tables.session = _
    rw [hsession, countedRow, hold (·.usage.contextTokens) (·.contextTokens) fun _ _ => rfl,
      hold (·.usage.modelContextWindow) (·.modelContextWindow) fun _ _ => rfl]
  · intro row hrow
    change tables.session = some row at hrow
    rw [hsession] at hrow
    cases hrow
    exact hfit
  · intro d
    show tables.daily[d]? = _
    rw [hdaily, hcounts, Table.lookup_insert, List.filter_append]
    by_cases hd : n.day = d
    · rw [if_pos hd, List.filter_cons_of_pos (by simp [hd]), List.filter_nil, List.getLast?_concat]
      rfl
    · rw [if_neg hd, List.filter_cons_of_neg (by simp [hd]), List.filter_nil, List.append_nil]
      exact h.daily d
  · intro key
    show tables.models[key]? = _
    have hlast : (((counts events).map (liveRow jsonbText s.events)).getLast?.map Prod.snd).getD 0
        = spentBefore s.tables.session := by
      rw [h.session, countedSession, List.getLast?_map]
      cases (counts events).getLast? <;> rfl
    rw [hmodels, hcounts, List.map_append, map_liveRow_insert hlt, List.map_singleton,
      increases_append, lookup_groupSum_append, hlast, Table.lookup_insert, hrow, countedModel]
    by_cases hkey : (liveRow jsonbText (s.events.insert e.1 e.2) n).1 = key
    · rw [if_pos hkey, if_pos hkey, hkey, h.models key]
      cases (groupSum (increases ((counts events).map (liveRow jsonbText s.events))))[key]? <;> rfl
    · rw [if_neg hkey, if_neg hkey]
      exact h.models key
  · intro key row' hrow'
    change tables.models[key]? = some row' at hrow'
    rw [hmodels, Table.lookup_insert] at hrow'
    split at hrow'
    · cases hrow'
      exact hrowFit
    · exact h.modelsFit key row' hrow'

/-- **One record keeps the rows those of the counts so far.** -/
theorem CodexLive.step (h : CodexLive jsonbText events s) (hlt : ∀ e' ∈ events, e'.1 < e.1)
    (hkind : codexRecordKind e.2.payload ≠ some "token_usage_record")
    (hs : ingestUsage jsonbText .codex s e = some s') : CodexLive jsonbText (events ++ [e]) s' := by
  unfold ingestUsage at hs
  by_cases hinherited : e.2.subtype = some inheritedHistory
  · rw [if_pos hinherited] at hs
    cases hs
    exact h.uncounted hlt (countOf_eq_none_iff.mpr (.inl hinherited))
  · rw [if_neg hinherited] at hs
    obtain ⟨tables, htables, rfl⟩ := Option.map_eq_some_iff.mp hs
    rw [upsertFromEvent, extractUsage, extractCodexUsage_of_noResponse hkind] at htables
    cases hextract : extractTokenCount e.2.payload with
    | none =>
        rw [hextract] at htables
        cases htables
        exact h.uncounted hlt (countOf_eq_none_iff.mpr (.inr hextract))
    | some usage =>
        obtain ⟨n, hn⟩ : ∃ n, countOf e = some n := by
          rw [← Option.isSome_iff_exists, Option.isSome_iff_ne_none, ne_eq, countOf_eq_none_iff]
          rintro (h | h)
          · exact hinherited h
          · rw [hextract] at h
            cases h
        obtain ⟨_, _, _, hn'⟩ := countOf_eq_some_iff.mp hn
        rw [hextract] at hn'
        cases hn'
        have hrow : ∀ row, s.tables.session = some row →
            row.lastByteOffset < e.1 ∧ row.codexResponseRecords = false := by
          intro row hrow
          rw [h.session] at hrow
          obtain ⟨m, hm, rfl⟩ := Option.map_eq_some_iff.mp hrow
          obtain ⟨e', he', hof⟩ := mem_counts_iff.mp (List.mem_of_getLast? hm)
          refine ⟨?_, rfl⟩
          show m.event.1 < e.1
          rw [(countOf_eq_some_iff.mp hof).2.1]
          exact hlt e' he'
        have hfresh : (s.tables.session.map SessionRow.stored).any
            (fun row => decide (e.1 ≤ row.lastByteOffset)) = false := by
          cases hsession : s.tables.session with
          | none => rfl
          | some row => exact decide_eq_false (not_le.mpr (hrow row hsession).1)
        have hlegacy : (s.tables.session.map SessionRow.stored).any
            (fun row => row.codexResponseRecords) = false := by
          cases hsession : s.tables.session with
          | none => rfl
          | some row => exact (hrow row hsession).2
        have hmode := (count_usage hextract).1
        simp only [hextract, hfresh, hlegacy, hmode] at htables
        exact h.counted hlt hn (by simpa using htables)

/-- **What live ingest leaves** of a session without response records. -/
theorem CodexLive.run {before after : List SourceEvent} (h : CodexLive jsonbText before s)
    (horder : ByteOrder (before ++ after)) (hkinds : NoResponses after)
    (hs : ingestAll jsonbText .codex s after = some s') :
      CodexLive jsonbText (before ++ after) s' := by
  induction after generalizing before s with
  | nil =>
      cases hs
      rw [List.append_nil]
      exact h
  | cons e after ih =>
      obtain ⟨s₁, hs₁, hrest⟩ := Option.bind_eq_some_iff.mp hs
      have hlt : ∀ e' ∈ before, e'.1 < e.1 := fun e' he' =>
        (List.pairwise_append.mp horder).2.2 e' he' e (.head _)
      have hstep := h.step hlt (hkinds e (.head _)) hs₁
      have hsplit : before ++ e :: after = before ++ [e] ++ after := by simp
      rw [hsplit] at horder ⊢
      exact ih hstep horder (fun e' he' => hkinds e' (.tail _ he')) hrest

end Sulion.Usage.Legacy
