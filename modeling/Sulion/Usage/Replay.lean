import Sulion.Usage.Upsert

set_option autoImplicit false

/-! # Usage rebuilt from the stored events

For a session with response records the rebuild folds the stored events in memory (`Replay`)
and writes the result: a session row, a snapshot for each day, and the model buckets. Live
ingest reaches the same rows by upserts (`Upsert.lean`).

`persistReplay_eq` reads the rows off a replay. `Charges` says what a session has spent, in
unbounded integers; `LiveReplay.lean` compares live ingest and replay through it.
-/

namespace Sulion.Usage

open Rust Ingest

/-! ## The replay -/

/-- What the replay keeps for a day: the day's last change. -/
structure ReplayDay where
  byteOffset : Int
  timestamp : Timestamp
  total : UsageUpdate
  modern : Bool

structure Replay where
  model : Option String
  total : Option UsageUpdate
  responses : Finset String
  days : Table Day ReplayDay
  models : Table (Day × String) Tokens

def Replay.default : Replay := ⟨none, none, ∅, ∅, ∅⟩

/-- `i64` addition in a release build. -/
def wrappingAdd (a b : Int) : Int := Int.bmod (a + b) (2 ^ 64)

/-- `accumulate`. -/
def accumulate (total next : UsageUpdate) (contextOnly : Bool) : UsageUpdate :=
  let charged :=
    if contextOnly then total
    else
      match next.mode with
      | .cumulative => next
      | .delta =>
          { total with
            spend := fun column => saturatingAdd (total.spend column) (next.spend column)
            messageId := next.messageId }
  { charged with
    contextTokens := next.contextTokens.or total.contextTokens
    modelContextWindow := next.modelContextWindow.or total.modelContextWindow }

/-- The `StoredUsage` the replay makes of its total. -/
def Replay.stored (r : Replay) : Option StoredUsage :=
  r.total.map fun total => ⟨total.spend.tokens, total.messageId, -1, decide (r.responses ≠ ∅)⟩

/-- The end of `observe`, with `r.responses` already extended. -/
def Replay.charge (r : Replay) (e : SourceEvent) (usage : UsageUpdate) : Replay :=
  let contextOnly := decide (usage.mode ≠ .delta ∧ r.responses ≠ ∅)
  let key := (e.2.timestamp.dateNaive, (usage.model.or r.model).getD unknownModel)
  let delta := dailyDelta usage r.stored
  let total := r.total.elim usage fun total => accumulate total usage contextOnly
  { r with
    total := some total
    days := r.days.insert e.2.timestamp.dateNaive
      ⟨e.1, e.2.timestamp, { total with mode := .cumulative }, decide (r.responses ≠ ∅)⟩
    models :=
      if contextOnly then r.models
      else r.models.insert key fun column => wrappingAdd ((r.models[key]?.getD 0) column)
        (delta column) }

/-- `Replay::observe`. -/
def Replay.observe (r : Replay) (e : SourceEvent) : Replay :=
  if codexRecordKind e.2.payload = some "turn_context" then
    { r with model := (e.2.payload.stringAt ["payload", "model"]).or r.model }
  else
    match extractCodexUsage e.2.payload with
    | none => r
    | some usage =>
        if usage.mode = .delta then
          let id := usage.messageId.getD ""
          if id ∈ r.responses then r
            else { r with responses := insert id r.responses }.charge e usage
        else r.charge e usage

/-- The events a rebuild selects, observed one after the other. -/
def replayAll (events : List SourceEvent) : Replay :=
  (events.filter fun e => e.2.subtype ≠ some inheritedHistory).foldl Replay.observe .default

def persistDay (db : UsageTables) (day : ReplayDay) : Option UsageTables :=
  (storeUsage db .codex day.byteOffset day.timestamp day.total day.modern).map fun db =>
    snapshotDaily db day.timestamp

/-- `date.and_hms_opt(0, 0, 0)`. -/
def midnight (day : Day) : Timestamp := day * 86400000000

def persistModel (db : UsageTables) (e : (Day × String) × Tokens) : Option UsageTables :=
  addModelDaily db TranscriptSource.codex.agentId e.1.2 (midnight e.1.1) e.2 none

/-- `persist_replay`, which begins by deleting the session's rows. -/
def persistReplay (r : Replay) : Option UsageTables := do
  let days := r.days.rows.insertionSort fun a b => a.byteOffset ≤ b.byteOffset
  let db ← days.foldlM persistDay .empty
  let db ← r.models.toList.foldlM persistModel db
  some { db with responses := db.responses ∪ r.responses }

/-! ## What a session has spent -/

/-- What the records so far have charged, in unbounded integers: cumulative totals until the
first response record, the sum of the distinct responses from then on. -/
structure Charges where
  spend : Option Spend
  responses : Finset String
  model : Option String
  byModel : Day × String → Tokens

def Charges.none : Charges := ⟨.none, ∅, .none, 0⟩

/-- What an update adds to its bucket. -/
def chargedTokens (before : Spend) (usage : UsageUpdate) : Tokens :=
  match usage.mode with
  | .delta => usage.spend.tokens
  | .cumulative => fun column => max (usage.spend (.token column) - before (.token column)) 0

/-- The bucket of an update. -/
def chargedKey (e : SourceEvent) (usage : UsageUpdate) (model : Option String) : Day × String :=
  (e.2.timestamp.dateNaive, (usage.model.or model).getD unknownModel)

/-- Charge an update to its day and model. -/
def Charges.charge (c : Charges) (e : SourceEvent) (usage : UsageUpdate) : Charges :=
  let before := c.spend.getD 0
  let key := chargedKey e usage c.model
  { c with
    spend :=
      some (match usage.mode with
        | .delta => before + usage.spend
        | .cumulative => usage.spend)
    byModel := Function.update c.byModel key (c.byModel key + chargedTokens before usage) }

def Charges.observe (c : Charges) (e : SourceEvent) : Charges :=
  if e.2.subtype = some inheritedHistory then c
  else if codexRecordKind e.2.payload = some "turn_context" then
    { c with model := (e.2.payload.stringAt ["payload", "model"]).or c.model }
  else
    match extractCodexUsage e.2.payload with
    | .none => c
    | some usage =>
        if usage.mode = .delta then
          let id := usage.messageId.getD ""
          if id ∈ c.responses then c
            else { c with responses := insert id c.responses }.charge e usage
        else if c.responses ≠ ∅ then c
        else c.charge e usage

def chargesOf (events : List SourceEvent) : Charges := events.foldl Charges.observe .none

/-- The sums are within `i64`. -/
structure Charges.Fit (c : Charges) : Prop where
  spend : ∀ spend ∈ c.spend, ∀ column, spend column ≤ i64Max
  byModel : ∀ key column, c.byModel key column ≤ i64Max

/-- The sums stay within `i64`. -/
def SumsFit (events : List SourceEvent) : Prop :=
  ∀ before, before <+: events → (chargesOf before).Fit

/-- A record stored as a turn context is one, and its model is a string if it has one. -/
def ModelIsText (value : Json) : Prop :=
  storedEventKind .codex value = "turn_context" →
    codexRecordKind value = some "turn_context" ∧
      ∀ model, value.at? ["payload", "model"] = some model → model = .null ∨ ∃ s, model = .str s

/-- The last call of a `token_count` reports no more reasoning than tokens in all. -/
def ContextCounted (value : Json) : Prop :=
  ∀ info total, tokenCountInfo value = some (info, total) →
    ∀ last, lastTokenUsage info = some last →
      tokenAt last "reasoning_output_tokens" ≤ totalTokenCount last

/-- The same rows, apart from the message ids of the model buckets. -/
structure SameUsage (db db' : UsageTables) : Prop where
  session : db.session = db'.session
  daily : db.daily = db'.daily
  models :
    ∀ key : Day × String,
    (db.models[key]?).map ModelRow.tokens = (db'.models[key]?).map ModelRow.tokens
  responses : db.responses = db'.responses

/-! ## What persisting a replay leaves -/

/-- The session row a day's entry is stored as. -/
def ReplayDay.row (day : ReplayDay) : SessionRow :=
  proposedRow .codex day.byteOffset day.timestamp day.total day.modern

def ReplayDay.snapshot (day : ReplayDay) : DailyRow :=
  ⟨TranscriptSource.codex.agentId, day.total.spend⟩

/-- Nothing an earlier entry knows is lost in a later one. -/
structure Sticky (day later : ReplayDay) : Prop where
  context : day.total.contextTokens.isSome → later.total.contextTokens.isSome
  window : day.total.modelContextWindow.isSome → later.total.modelContextWindow.isSome
  message : day.total.messageId.isSome → later.total.messageId.isSome
  modern : day.modern = true → later.modern = true

/-- The entries of a replay can be persisted in the order of their offsets. -/
structure Replay.Sound (r : Replay) : Prop where
  day_eq : ∀ (d : Day) (day : ReplayDay), r.days[d]? = some day → day.timestamp.dateNaive = d
  offset_inj : ∀ (d d' : Day) (day day' : ReplayDay), r.days[d]? = some day →
    r.days[d']? = some day' → day.byteOffset = day'.byteOffset → d = d'
  sticky : ∀ (d d' : Day) (day day' : ReplayDay), r.days[d]? = some day →
    r.days[d']? = some day' → day.byteOffset < day'.byteOffset → Sticky day day'
  cumulative : ∀ (d : Day) (day : ReplayDay), r.days[d]? = some day → day.total.mode = .cumulative
  fit : ∀ (d : Day) (day : ReplayDay), r.days[d]? = some day → day.row.Fit
  models_fit : ∀ (key : Day × String) (tokens : Tokens), r.models[key]? = some tokens → tokens.Fit

theorem or_eq_left_of_isSome {α : Type*} {a b : Option α} (h : b.isSome → a.isSome) :
    a.or b = a := by
  cases a with
  | some a => rfl
  | none =>
      cases b with
      | none => rfl
      | some b => simp at h

/-- A later entry replaces an earlier one. -/
theorem upsert_row {day later : ReplayDay} (h : Sticky day later) :
    day.row.upsert later.row false = later.row := by
  have hmodern : (day.modern || later.modern) = later.modern := by
    cases hday : day.modern with
    | false => rfl
    | true => simp [h.modern hday]
  simp only [SessionRow.upsert, ReplayDay.row, proposedRow, or_eq_left_of_isSome h.context,
    or_eq_left_of_isSome h.window, or_eq_left_of_isSome h.message, hmodern]
  rfl

/-- What the entries persisted so far have left. -/
structure DaysPersisted (days : List ReplayDay) (db : UsageTables) : Prop where
  session : db.session = days.getLast?.map ReplayDay.row
  daily : ∀ day ∈ days, db.daily[day.timestamp.dateNaive]? = some day.snapshot
  daily_none : ∀ d : Day, (∀ day ∈ days, day.timestamp.dateNaive ≠ d) → db.daily[d]? = none
  models : db.models = ∅
  responses : db.responses = ∅

theorem persistDay_eq {db : UsageTables} {day : ReplayDay} (hfit : day.row.Fit)
    (hmode : day.total.mode = .cumulative)
    (hsession : ∀ row, db.session = some row → ∃ before, row = ReplayDay.row before ∧
      before.byteOffset < day.byteOffset ∧ Sticky before day) :
    persistDay db day = some
      { db with
        session := some day.row
        daily := db.daily.insert day.timestamp.dateNaive day.snapshot } := by
  have hstore : storeUsage db .codex day.byteOffset day.timestamp day.total day.modern
      = some { db with session := some day.row } := by
    cases hs : db.session with
    | none =>
        simp only [storeUsage, hs]
        exact if_pos ⟨hfit, hfit⟩
    | some row =>
        obtain ⟨before, rfl, hlt, hsticky⟩ := hsession row hs
        have hrow :
            (ReplayDay.row before).upsert day.row (decide (day.total.mode = .delta)) = day.row := by
          rw [hmode]
          exact upsert_row hsticky
        have hlt' : (ReplayDay.row before).lastByteOffset < day.byteOffset := hlt
        have hexcluded : proposedRow .codex day.byteOffset day.timestamp day.total day.modern
            = day.row := rfl
        simp only [storeUsage, hs, if_pos hlt', hexcluded, hrow]
        exact if_pos ⟨hfit, hfit⟩
  rw [persistDay, hstore]
  rfl

theorem persistDays_eq {days : List ReplayDay} (hfit : ∀ day ∈ days, day.row.Fit)
    (hmode : ∀ day ∈ days, day.total.mode = .cumulative)
    (hpair : days.Pairwise fun day later => day.byteOffset < later.byteOffset ∧ Sticky day later ∧
      day.timestamp.dateNaive ≠ later.timestamp.dateNaive) :
    ∃ db, days.foldlM persistDay .empty = some db ∧ DaysPersisted days db := by
  induction days using List.reverseRecOn with
  | nil => exact ⟨.empty, rfl, ⟨rfl, by simp, fun d _ => by simp [UsageTables.empty], rfl, rfl⟩⟩
  | append_singleton days day ih =>
      rw [List.pairwise_append] at hpair
      obtain ⟨db, hdb, hold⟩ :=
        ih (fun d hd => hfit d (by simp [hd])) (fun d hd => hmode d (by simp [hd]))
        hpair.1
      have hlater := fun before hbefore => hpair.2.2 before hbefore day (by simp)
      refine ⟨{ db with
        session := some day.row
        daily := db.daily.insert day.timestamp.dateNaive day.snapshot }, ?_, ?_⟩
      · rw [List.foldlM_append, hdb]
        simp only [Option.bind_eq_bind, Option.bind_some, List.foldlM_cons, List.foldlM_nil]
        rw [persistDay_eq (hfit day (by simp)) (hmode day (by simp)) fun row hrow => ?_]
        · rfl
        · rw [hold.session, Option.map_eq_some_iff] at hrow
          obtain ⟨before, hbefore, rfl⟩ := hrow
          have := hlater before (List.mem_of_getLast? hbefore)
          exact ⟨before, rfl, this.1, this.2.1⟩
      · refine ⟨by simp, fun d hd => ?_, fun d hd => ?_, hold.models, hold.responses⟩
        · rcases List.mem_append.mp hd with hd | hd
          · show (db.daily.insert _ _)[_]? = _
            rw [Table.lookup_insert_ne _ _ (hlater d hd).2.2.symm]
            exact hold.daily d hd
          · obtain rfl := List.mem_singleton.mp hd
            exact Table.lookup_insert_self _ _ _
        · show (db.daily.insert _ _)[d]? = _
          rw [Table.lookup_insert_ne _ _ (hd day (by simp))]
          exact hold.daily_none d fun before hbefore => hd before (by simp [hbefore])

theorem dateNaive_midnight (day : Day) : Timestamp.dateNaive (midnight day) = day := by
  exact Int.mul_ediv_cancel day (by decide)

/-- Each bucket is written once, with the replay's tokens. -/
theorem persistModels_eq {models : List ((Day × String) × Tokens)} {db : UsageTables}
    (hfit : ∀ e ∈ models, e.2.Fit) (hdistinct : (models.map Prod.fst).Nodup)
    (hfresh : ∀ e ∈ models, db.models[e.1]? = none) :
    ∃ db', models.foldlM persistModel db = some db' ∧ db'.session = db.session ∧
      db'.daily = db.daily ∧ db'.responses = db.responses ∧
      (∀ e ∈ models, (db'.models[e.1]?).map ModelRow.tokens = some e.2) ∧
      ∀ key ∉ models.map Prod.fst, db'.models[key]? = db.models[key]? := by
  induction models generalizing db with
  | nil => exact ⟨db, rfl, rfl, rfl, rfl, by simp, fun _ _ => rfl⟩
  | cons e models ih =>
      obtain ⟨key, tokens⟩ := e
      rw [List.map_cons, List.nodup_cons] at hdistinct
      have hnone : db.models[key]? = none := hfresh (key, tokens) (.head _)
      have htokens : tokens.Fit := hfit (key, tokens) (.head _)
      have hstep : persistModel db (key, tokens) = some
          { db with
            models := db.models.insert key ⟨TranscriptSource.codex.agentId, tokens, none⟩ } := by
        simp only [persistModel, addModelDaily, dateNaive_midnight, hnone]
        exact if_pos ⟨htokens, htokens⟩
      have hrest : ∀ e ∈ models, ({ db with
          models := db.models.insert key ⟨TranscriptSource.codex.agentId, tokens, none⟩ } :
            UsageTables).models[e.1]? = none := by
        intro e he
        have hne : key ≠ e.1 := by
          rintro rfl
          exact hdistinct.1 (List.mem_map.mpr ⟨e, he, rfl⟩)
        exact (Table.lookup_insert_ne _ _ hne).trans (hfresh e (.tail _ he))
      obtain ⟨db', hdb', hsession, hdaily, hresponses, hin, hout⟩ :=
        ih (fun e he => hfit e (.tail _ he)) hdistinct.2 hrest
      refine ⟨db', ?_, hsession, hdaily, hresponses, fun e he => ?_, fun key' hkey' => ?_⟩
      · rw [List.foldlM_cons, hstep]
        exact hdb'
      · rcases List.mem_cons.mp he with rfl | he
        · rw [hout _ hdistinct.1, Table.lookup_insert_self]
          rfl
        · exact hin e he
      · rw [List.map_cons, List.mem_cons, not_or] at hkey'
        rw [hout _ hkey'.2, Table.lookup_insert_ne _ _ (Ne.symm hkey'.1)]

theorem mem_rows_iff {r : Replay} (h : r.Sound) {day : ReplayDay} :
    day ∈ r.days.rows ↔ r.days[day.timestamp.dateNaive]? = some day := by
  rw [Table.mem_rows]
  constructor
  · rintro ⟨d, hd⟩
    rw [h.day_eq d day hd]
    exact hd
  · exact fun hd => ⟨_, hd⟩

/-- No two entries are of one day. -/
theorem pairwise_dateNaive {r : Replay} (h : r.Sound) :
    r.days.rows.Pairwise fun day day' => day.timestamp.dateNaive ≠ day'.timestamp.dateNaive := by
  have hdistinct := Std.ExtTreeMap.distinct_keys_toList (t := r.days)
  rw [Table.rows, List.pairwise_map]
  refine hdistinct.imp_of_mem fun {e e'} he he' hne heq => hne ?_
  have hday := h.day_eq _ _ (Std.ExtTreeMap.mem_toList_iff_getElem?_eq_some.mp he)
  have hday' := h.day_eq _ _ (Std.ExtTreeMap.mem_toList_iff_getElem?_eq_some.mp he')
  rw [← hday, ← hday', heq]
  exact Std.ReflCmp.compare_self

/-- In the order of their offsets, the entries grow. -/
theorem pairwise_sorted {r : Replay} (h : r.Sound) :
    (r.days.rows.insertionSort fun a b => a.byteOffset ≤ b.byteOffset).Pairwise
      fun day later => day.byteOffset < later.byteOffset ∧ Sticky day later ∧
        day.timestamp.dateNaive ≠ later.timestamp.dateNaive := by
  have htotal : Std.Total fun a b : ReplayDay => a.byteOffset ≤ b.byteOffset :=
    ⟨fun a b => le_total _ _⟩
  have htrans : IsTrans ReplayDay fun a b => a.byteOffset ≤ b.byteOffset :=
    ⟨fun _ _ _ => le_trans⟩
  have hperm :=
    List.perm_insertionSort (fun a b : ReplayDay => a.byteOffset ≤ b.byteOffset) r.days.rows
  have hdates := (hperm.pairwise_iff fun {_ _} hne => hne.symm).mpr (pairwise_dateNaive h)
  refine ((List.pairwise_insertionSort _ _).and hdates).imp_of_mem ?_
  intro day later hday hlater ⟨hle, hne⟩
  have hday := (mem_rows_iff h).mp (hperm.mem_iff.mp hday)
  have hlater := (mem_rows_iff h).mp (hperm.mem_iff.mp hlater)
  have hlt : day.byteOffset < later.byteOffset :=
    lt_of_le_of_ne hle fun heq => hne (h.offset_inj _ _ _ _ hday hlater heq)
  exact ⟨hlt, h.sticky _ _ _ _ hday hlater hlt, hne⟩

/-- In a list that grows, the last entry is the one with the largest offset. -/
theorem getLast?_of_max {days : List ReplayDay} {day : ReplayDay}
    (hpair : days.Pairwise fun day later => day.byteOffset < later.byteOffset ∧ Sticky day later ∧
      day.timestamp.dateNaive ≠ later.timestamp.dateNaive)
    (hday : day ∈ days) (hmax : ∀ other ∈ days, other.byteOffset ≤ day.byteOffset) :
    days.getLast?.map ReplayDay.row = some day.row := by
  obtain ⟨before, after, rfl⟩ := List.append_of_mem hday
  cases after with
  | nil => simp
  | cons other after =>
      have hlt := ((List.pairwise_cons.mp (List.pairwise_append.mp hpair).2.1).1 other (.head _)).1
      have := hmax other (by simp)
      omega

/-- The rows a persisted replay consists of. -/
structure Persisted (r : Replay) (db : UsageTables) : Prop where
  session : ∀ day : ReplayDay, r.days[day.timestamp.dateNaive]? = some day →
    (∀ (d : Day) (other : ReplayDay), r.days[d]? = some other → other.byteOffset ≤ day.byteOffset) →
    db.session = some day.row
  session_none : r.days = ∅ → db.session = none
  daily : ∀ d : Day, db.daily[d]? = (r.days[d]?).map ReplayDay.snapshot
  models : ∀ key : Day × String, (db.models[key]?).map ModelRow.tokens = r.models[key]?
  responses : db.responses = r.responses

/-- **The result of a rebuild.** The last entry is the session row, every entry its day's
snapshot, and the buckets are the replay's. -/
theorem persistReplay_eq {r : Replay} (h : r.Sound) :
    ∃ db, persistReplay r = some db ∧ Persisted r db := by
  have hmem : ∀ day, day ∈ r.days.rows.insertionSort (fun a b => a.byteOffset ≤ b.byteOffset) ↔
      r.days[day.timestamp.dateNaive]? = some day := fun day =>
    (List.mem_insertionSort _).trans (mem_rows_iff h)
  obtain ⟨dbDays, hdays, hpersisted⟩ := persistDays_eq
    (fun day hday => h.fit _ _ ((hmem day).mp hday))
    (fun day hday => h.cumulative _ _ ((hmem day).mp hday)) (pairwise_sorted h)
  have hfresh : ∀ e ∈ r.models.toList, dbDays.models[e.1]? = none := fun e _ => by
    simp [hpersisted.models]
  obtain ⟨db, hmodels, hsession, hdaily, hresponses, hin, hout⟩ := persistModels_eq
    (fun e he => h.models_fit e.1 e.2 (Std.ExtTreeMap.mem_toList_iff_getElem?_eq_some.mp he))
    (Table.nodup_keys _) hfresh
  refine ⟨{ db with responses := db.responses ∪ r.responses }, ?_, ?_⟩
  · simp only [persistReplay, hdays, Option.bind_eq_bind, Option.bind_some, hmodels]
  · refine ⟨fun day hday hmax => ?_, fun hempty => ?_, fun d => ?_, fun key => ?_, ?_⟩
    · show db.session = _
      rw [hsession, hpersisted.session]
      exact getLast?_of_max (pairwise_sorted h) ((hmem day).mpr hday) fun other hother =>
        hmax _ _ ((hmem other).mp hother)
    · show db.session = _
      have hrows : r.days.rows = [] := by simp [hempty, Table.rows]
      rw [hsession, hpersisted.session, hrows]
      rfl
    · show db.daily[d]? = _
      rw [hdaily]
      cases hd : r.days[d]? with
      | none =>
          refine hpersisted.daily_none d fun day hday heq => ?_
          rw [hmem, heq, hd] at hday
          cases hday
      | some day =>
          have hdate := h.day_eq d day hd
          have := hpersisted.daily day ((hmem day).mpr (hdate.symm ▸ hd))
          rw [← hdate]
          exact this
    · show (db.models[key]?).map ModelRow.tokens = _
      cases hkey : r.models[key]? with
      | none =>
          rw [hout key, hpersisted.models]
          · simp
          · rw [List.mem_map]
            rintro ⟨e, he, rfl⟩
            rw [Std.ExtTreeMap.mem_toList_iff_getElem?_eq_some, hkey] at he
            cases he
      | some tokens =>
          exact hin (key, tokens) (Std.ExtTreeMap.mem_toList_iff_getElem?_eq_some.mpr hkey)
    · show db.responses ∪ r.responses = _
      rw [hresponses, hpersisted.responses, Finset.empty_union]

end Sulion.Usage
