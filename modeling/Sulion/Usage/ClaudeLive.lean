import Sulion.Lib.OrderedQueries
import Sulion.Usage.ClaudeBilling

set_option autoImplicit false

/-! # What live ingest leaves of a Claude session

`Billed` says what the rows sum up to. For a comparison with rows made by queries the rest of them
is needed too (`ClaudeLive`): the days that have a daily row, the counters a snapshot copies, the
context and the window of the session row, and the message id that a model bucket has kept since it
was made.
-/

namespace Sulion.Usage.Claude

open Rust Ingest

variable {jsonbText : Json → String} {events : List SourceEvent} {s s' : UsageState}
  {e : SourceEvent} {r new : Receipt} {db db' : UsageTables} {prior : Option Receipt}

/-! ## The rows beside the sums -/

/-- The last window that a receipt names. -/
def lastWindow (all : List Receipt) : Option Int :=
  (all.filterMap (·.usage.modelContextWindow)).getLast?

/-- The message id of a bucket, from the last receipt back: a receipt that finds its bucket keeps
the id it has none for. -/
def keptIdBack : List Receipt → Day × String → Option String
  | [], _ => none
  | new :: before, key =>
      if new.bucket = key then
        new.usage.messageId.or
          (if ∃ r ∈ latest before.reverse, r.bucket = key then keptIdBack before key else none)
      else keptIdBack before key

/-- The message id that a bucket has kept since it was made. -/
def keptId (all : List Receipt) (key : Day × String) : Option String := keptIdBack all.reverse key

theorem keptId_append (all : List Receipt) (new : Receipt) (key : Day × String) :
    keptId (all ++ [new]) key =
      if new.bucket = key then
        new.usage.messageId.or
          (if ∃ r ∈ latest all, r.bucket = key then keptId all key else none)
      else keptId all key := by
  rw [keptId, List.reverse_append, List.reverse_singleton, List.singleton_append, keptIdBack,
    List.reverse_reverse]
  rfl

/-- The daily row of a day: a copy of the held receipts up to it. -/
def snapshotAt (events : List SourceEvent) (day : Day) : Option DailyRow :=
  if ∃ r ∈ heldReceipts events, r.timestamp.dateNaive = day then
    some (snapshotRow (sumWhere (fun r => r.timestamp.dateNaive ≤ day) (·.usage.spend.tokens)
      (heldReceipts events)))
  else none

/-- The rows of a Claude session, beside what they sum up to. -/
structure ClaudeLive (events : List SourceEvent) (s : UsageState) : Prop where
  billed : Billed events s
  none : receipts events = [] → s.tables.session = none
  session : ∀ new, (receipts events).getLast? = some new →
    ∃ row, s.tables.session = some row ∧ row.contextTokens = new.usage.contextTokens ∧
      row.modelContextWindow = lastWindow (receipts events) ∧
      row.agent = TranscriptSource.claudeCode.agentId
  daily : ∀ day : Day, s.tables.daily[day]? = snapshotAt events day
  models : ∀ (key : Day × String) (row : ModelRow), s.tables.models[key]? = some row →
    row.agent = TranscriptSource.claudeCode.agentId ∧
      row.lastUsageMessageId = keptId (receipts events) key

theorem claudeLive_empty : ClaudeLive [] .empty where
  billed := billed_empty
  none _ := rfl
  session new h := by cases h
  daily day := by
    simp [UsageState.empty, UsageTables.empty, snapshotAt, heldReceipts, latest, receipts]
  models key row h := by simp [UsageState.empty, UsageTables.empty] at h

/-! ## Rows by day -/

theorem day_mem_runningSums (before : Tokens) (entries : List (Day × Tokens)) :
    (runningSums before entries).map Prod.fst = entries.map Prod.fst := by
  induction entries generalizing before with
  | nil => rfl
  | cons entry entries ih =>
      obtain ⟨day, tokens⟩ := entry
      rw [runningSums, List.map_cons, List.map_cons, ih]

/-- The rows that running sums are inserted as. -/
theorem lookup_runningSums {entries : List (Day × Tokens)} (hsorted : entries.Pairwise (·.1 < ·.1))
    (day : Day) :
    (Table.ofRows ((runningSums 0 entries).map fun e => (e.1, snapshotRow e.2)))[day]? =
      if day ∈ entries.map Prod.fst then
        some (snapshotRow (sumWhere (fun e => e.1 ≤ day) Prod.snd entries))
      else none := by
  rw [Table.lookup_ofRows_map Prod.fst fun e : Day × Tokens => snapshotRow e.2]
  cases hlast : ((runningSums 0 entries).filter fun e => decide (e.1 = day)).getLast? with
  | none =>
      have hday : day ∉ entries.map Prod.fst := by
        rw [← day_mem_runningSums 0]
        intro hmem
        obtain ⟨entry, hentry, hday⟩ := List.mem_map.mp hmem
        rw [List.getLast?_eq_none_iff, List.filter_eq_nil_iff] at hlast
        exact hlast entry hentry (decide_eq_true hday)
      rw [if_neg hday]
      rfl
  | some entry =>
      obtain ⟨day', total⟩ := entry
      obtain ⟨hmem, hday⟩ := List.mem_filter.mp (List.mem_of_getLast? hlast)
      obtain rfl : day' = day := of_decide_eq_true hday
      obtain ⟨hsum, hday⟩ := mem_runningSums hsorted hmem
      rw [if_pos hday, Option.map_some, hsum, zero_add]

/-- Items summed per day, and then up to each day. -/
theorem lookup_daySums {α : Type*} (items : List α) (dayOf : α → Day) (tokens : α → Tokens)
    (day : Day) :
    (Table.ofRows ((runningSums 0 (Table.mergeList (· + ·) ∅
        (items.map fun a => (dayOf a, tokens a))).toList).map fun e =>
          (e.1, snapshotRow e.2)))[day]? =
      if ∃ a ∈ items, dayOf a = day then
        some (snapshotRow (sumWhere (fun a => dayOf a ≤ day) tokens items))
      else none := by
  have hgrouped := Table.grouped_mergeList dayOf tokens items
  have hsorted : (Table.mergeList (· + ·) ∅
      (items.map fun a => (dayOf a, tokens a))).toList.Pairwise (·.1 < ·.1) :=
    (Std.ExtTreeMap.ordered_keys_toList).imp compare_lt_iff_lt.mp
  have hsum := hgrouped.sum_filter (· ≤ day)
  rw [lookup_runningSums hsorted, hsum]
  have hday : day ∈ (Table.mergeList (· + ·) ∅
      (items.map fun a => (dayOf a, tokens a))).toList.map Prod.fst ↔
        ∃ a ∈ items, dayOf a = day := by
    constructor
    · intro hmem
      obtain ⟨entry, hentry, rfl⟩ := List.mem_map.mp hmem
      rw [Std.ExtTreeMap.mem_toList_iff_getElem?_eq_some, Table.lookup_mergeList_add] at hentry
      split at hentry
      · rename_i hsome
        obtain ⟨row, hrow, hkey⟩ := hsome
        obtain ⟨a, ha, rfl⟩ := List.mem_map.mp hrow
        exact ⟨a, ha, hkey⟩
      · cases hentry
    · rintro ⟨a, ha, rfl⟩
      exact hgrouped.keys a ha
  by_cases hsome : ∃ a ∈ items, dayOf a = day
  · rw [if_pos hsome, if_pos (hday.mpr hsome)]
  · rw [if_neg hsome, if_neg fun hmem => hsome (hday.mp hmem)]

/-- **Rebuilt daily rows** are those of the held receipts. -/
theorem lookup_rebuild (h : ModelsBilled events db) (hdb : rebuildDailySnapshots db = some db')
    (day : Day) : db'.daily[day]? = snapshotAt events day := by
  unfold rebuildDailySnapshots at hdb
  simp only at hdb
  split at hdb
  · obtain rfl := Option.some.inj hdb
    show (Table.ofRows _)[day]? = _
    unfold dailySums
    rw [lookup_daySums db.models.toList (fun e => e.1.1) (fun e => e.2.tokens), snapshotAt]
    have hheld : (∃ e ∈ db.models.toList, e.1.1 = day) ↔
        ∃ r ∈ heldReceipts events, r.timestamp.dateNaive = day := by
      constructor
      · rintro ⟨entry, hentry, hday⟩
        rw [Std.ExtTreeMap.mem_toList_iff_getElem?_eq_some] at hentry
        have hkey := h entry.1
        rw [hentry] at hkey
        split at hkey
        · rename_i hheld
          obtain ⟨r, hr, hbucket⟩ := hheld
          exact ⟨r, hr, by rw [← hday, ← hbucket]; rfl⟩
        · cases hkey
      · rintro ⟨r, hr, hday⟩
        obtain ⟨row, hrow, -⟩ := (modelsBilled_iff.mp h).row ⟨r, hr, rfl⟩
        exact ⟨(r.bucket, row), Std.ExtTreeMap.mem_toList_iff_getElem?_eq_some.mpr hrow, hday⟩
    rw [sumWhere_models h]
    by_cases hsome : ∃ r ∈ heldReceipts events, r.timestamp.dateNaive = day
    · rw [if_pos hsome, if_pos (hheld.mpr hsome)]
    · rw [if_neg hsome, if_neg fun hmem => hsome (hheld.mp hmem)]
  · cases hdb

/-! ## A snapshot -/

/-- The counters of a receipt whose tokens together fit an `i64`. -/
theorem spend_eq_of_le {value : Json} {usage : UsageUpdate}
    (h : extractClaudeUsage value = some usage)
    (hle : usage.spend.tokens.sum ≤ i64Max) :
    usage.spend = (snapshotRow usage.spend.tokens).spend ∧
      usage.contextTokens = some usage.spend.tokens.sum := by
  have hcount := fun column => (isCount_extractClaudeUsage h column).1
  have hinput := hcount (.token .inputTokens)
  have hcached := hcount (.token .cachedInputTokens)
  have hwrite := hcount (.token .cacheWriteInputTokens)
  have hhour := hcount (.token .cacheWrite1hInputTokens)
  have houtput := hcount (.token .outputTokens)
  have htokens : usage.spend.tokens.sum = usage.spend (.token .inputTokens)
      + usage.spend (.token .cachedInputTokens) + usage.spend (.token .cacheWriteInputTokens)
      + usage.spend (.token .cacheWrite1hInputTokens) + usage.spend (.token .outputTokens) := rfl
  have htotal : usage.spend .totalTokens = saturatingAdd (saturatingAdd (saturatingAdd
      (saturatingAdd (usage.spend (.token .inputTokens))
        (usage.spend (.token .cacheWriteInputTokens)))
      (usage.spend (.token .cacheWrite1hInputTokens))) (usage.spend (.token .cachedInputTokens)))
      (usage.spend (.token .outputTokens)) := by
    obtain ⟨object, _, rfl⟩ := Option.map_eq_some_iff.mp h
    rfl
  have hsum : usage.spend .totalTokens = usage.spend.tokens.sum := by
    rw [htotal, htokens]
    rw [htokens] at hle
    have hadd {a b : Int} (ha : 0 ≤ a) (hb : 0 ≤ b) (hab : a + b ≤ i64Max) :
        saturatingAdd a b = a + b := by
      unfold saturatingAdd i64Clamp i64Min
      unfold i64Max at *
      omega
    rw [hadd hinput hwrite (by omega), hadd (by omega) hhour (by omega),
      hadd (by omega) hcached (by omega), hadd (by omega) houtput (by omega)]
    ring
  constructor
  · funext column
    cases column with
    | token column => rfl
    | reasoningOutputTokens =>
        obtain ⟨object, _, rfl⟩ := Option.map_eq_some_iff.mp h
        rfl
    | totalTokens => exact hsum
  · rw [← hsum]
    obtain ⟨object, _, rfl⟩ := Option.map_eq_some_iff.mp h
    rfl

/-- Receipts that do not saturate add up like their tokens. -/
theorem sum_spend_eq {items : List Receipt}
    (h : ∀ r ∈ items, r.usage.spend = (snapshotRow r.usage.spend.tokens).spend) :
    (items.map (·.usage.spend)).sum = (snapshotRow
      ((items.map (·.usage.spend.tokens)).sum)).spend := by
  induction items with
  | nil =>
      funext column
      cases column with
      | token column => rfl
      | reasoningOutputTokens => rfl
      | totalTokens => rfl
  | cons r items ih =>
      rw [List.map_cons, List.sum_cons, List.map_cons, List.sum_cons,
        ih fun r' hr' => h r' (List.mem_cons_of_mem r hr')]
      have hr := h r List.mem_cons_self
      funext column
      show r.usage.spend column + _ = _
      rw [hr]
      cases column with
      | token column => rfl
      | reasoningOutputTokens => rfl
      | totalTokens =>
          show r.usage.spend.tokens.sum + Tokens.sum _ = Tokens.sum _
          rw [Tokens.sum_add]
          rfl

/-- No receipt of a session whose charges fit saturates. -/
theorem receipt_spend (hcharges : ChargesFit events) (hr : r ∈ receipts events) :
    r.usage.spend = (snapshotRow r.usage.spend.tokens).spend ∧
      r.usage.contextTokens = some r.usage.spend.tokens.sum := by
  obtain ⟨e, -, hof⟩ := mem_receipts_iff.mp hr
  have hextract := (receiptOf_eq_some_iff.mp hof).1
  have hsub : [r].Sublist (receipts events) := List.singleton_sublist.mpr hr
  have hcount := (counted_of_sublist hsub hcharges).total fun _ => True
  rw [sumWhere_true] at hcount
  have hle : r.usage.spend.tokens.sum ≤ i64Max := by simpa using hcount.2
  exact spend_eq_of_le hextract hle

/-- Days other than that of a new receipt keep their snapshots, when it replaces one of its day. -/
theorem snapshotAt_of_ne (hprior : Replaces events new prior)
    (hheld : heldReceipts (events ++ [e]) = remaining events new ++ [new])
    (hdays : ∀ r ∈ receipts (events ++ [e]), r.timestamp.dateNaive ≤ new.timestamp.dateNaive)
    (hday : ∀ p ∈ prior, p.timestamp.dateNaive = new.timestamp.dateNaive) {day : Day}
    (hne : new.timestamp.dateNaive ≠ day) :
      snapshotAt (events ++ [e]) day = snapshotAt events day := by
  have hsome : (∃ r ∈ heldReceipts (events ++ [e]), r.timestamp.dateNaive = day) ↔
      ∃ r ∈ heldReceipts events, r.timestamp.dateNaive = day := by
    rw [hheld]
    constructor
    · rintro ⟨r, hr, hrday⟩
      rcases List.mem_append.mp hr with hr | hr
      · exact ⟨r, remaining_subset hr, hrday⟩
      · exact absurd (List.mem_singleton.mp hr ▸ hrday) hne
    · rintro ⟨r, hr, hrday⟩
      rcases hprior.cases hr with hr | hr
      · exact ⟨r, List.mem_append_left _ hr, hrday⟩
      · exact absurd ((hday r hr).symm.trans hrday) hne
  unfold snapshotAt
  by_cases hexists : ∃ r ∈ heldReceipts events, r.timestamp.dateNaive = day
  · rw [if_pos (hsome.mpr hexists), if_pos hexists]
    obtain ⟨r, hr, hrday⟩ := hsome.mpr hexists
    have hlt : day < new.timestamp.dateNaive := by
      refine lt_of_le_of_ne ?_ (Ne.symm hne)
      rw [← hrday]
      exact hdays r (mem_heldReceipts_iff.mp hr).1
    have hpriorDay : ∀ q ∈ prior.toList, ¬ q.timestamp.dateNaive ≤ day := fun q hq =>
      not_le.mpr (hday q (Option.mem_toList.mp hq) ▸ hlt)
    have hnewDay : ∀ q ∈ [new], ¬ q.timestamp.dateNaive ≤ day := fun q hq =>
      not_le.mpr (List.mem_singleton.mp hq ▸ hlt)
    rw [hprior.sumWhere_held, sumWhere_of_forall_not hpriorDay, zero_add, hheld, sumWhere_append,
      sumWhere_of_forall_not hnewDay, add_zero]
  · rw [if_neg hexists, if_neg fun hmem => hexists (hsome.mp hmem)]

/-! ## The statements -/

/-- What a model row says beside its tokens. -/
def rowLabel (row : ModelRow) : String × Option String := (row.agent, row.lastUsageMessageId)

theorem withdrawPrior_keeps (h : withdrawPrior db prior = some db') :
    db'.session = db.session ∧ db'.daily = db.daily ∧
      ∀ key : Day × String, (db'.models[key]?).map rowLabel = (db.models[key]?).map rowLabel := by
  cases prior with
  | none =>
      obtain rfl := Option.some.inj h
      exact ⟨rfl, rfl, fun _ => rfl⟩
  | some p =>
      unfold withdrawPrior withdrawModel at h
      simp only at h
      cases hrow : db.models[p.bucket]? with
      | none =>
          rw [hrow] at h
          obtain rfl := Option.some.inj h
          exact ⟨rfl, rfl, fun _ => rfl⟩
      | some row =>
          rw [hrow] at h
          simp only at h
          split at h
          · obtain rfl := Option.some.inj h
            refine ⟨rfl, rfl, fun key => ?_⟩
            show ((db.models.insert p.bucket _)[key]?).map rowLabel = _
            rw [Table.lookup_insert]
            by_cases hkey : p.bucket = key
            · rw [if_pos hkey, ← hkey, hrow]
              rfl
            · rw [if_neg hkey]
          · cases h

theorem dropEmpty_keeps {stored : EventTable} :
    (dropEmpty jsonbText db stored prior new).session = db.session ∧
      (dropEmpty jsonbText db stored prior new).daily = db.daily ∧
      ∀ (key : Day × String) (row : ModelRow),
        (dropEmpty jsonbText db stored prior new).models[key]? = some row →
          db.models[key]? = some row := by
  unfold dropEmpty
  split
  · refine ⟨rfl, rfl, fun key row hrow => ?_⟩
    have hlookup : (deleteEmptyBuckets jsonbText db stored).models[key]? =
        (db.models[key]?).filter fun _ => (distinctReceipts jsonbText stored).any fun row =>
          receiptBucket jsonbText row == key := by
      simp [deleteEmptyBuckets, Std.ExtTreeMap.getElem?_filter]
    rw [hlookup] at hrow
    exact (Option.filter_eq_some_iff.mp hrow).1
  · exact ⟨rfl, rfl, fun _ _ => id⟩

/-- What stands in a bucket once a receipt has been charged to its own. -/
def Relabelled (before : Table (Day × String) ModelRow) (new : Receipt) (key : Day × String)
    (row : ModelRow) : Prop :=
  if new.bucket = key then
    rowLabel row = (TranscriptSource.claudeCode.agentId,
      new.usage.messageId.or ((before[key]?).bind fun old => old.lastUsageMessageId))
  else ∃ old, before[key]? = some old ∧ rowLabel row = rowLabel old

theorem relabelled_insert {before models : Table (Day × String) ModelRow} {row : ModelRow}
    {key : Day × String} {tokens : Tokens}
    (hkeeps : ∀ key : Day × String, (models[key]?).map rowLabel = (before[key]?).map rowLabel)
    (hrow : (models.insert new.bucket (addedRow (models[new.bucket]?)
      TranscriptSource.claudeCode.agentId tokens new.usage.messageId))[key]? = some row) :
    Relabelled before new key row := by
  unfold Relabelled
  rw [Table.lookup_insert] at hrow
  by_cases hkey : new.bucket = key
  · rw [if_pos hkey] at hrow ⊢
    subst hkey
    have hold := hkeeps new.bucket
    rw [← Option.some.inj hrow]
    cases hbefore : before[new.bucket]? with
    | none =>
        rw [hbefore, Option.map_none, Option.map_eq_none_iff] at hold
        rw [hold, Option.bind_none, Option.or_none]
        rfl
    | some old =>
        rw [hbefore, Option.map_some] at hold
        obtain ⟨kept, hkept, hlabel⟩ := Option.map_eq_some_iff.mp hold
        rw [hkept, Option.bind_some, ← (Prod.mk.inj hlabel).2]
        rfl
  · rw [if_neg hkey] at hrow ⊢
    have hold := hkeeps key
    rw [hrow, Option.map_some, eq_comm] at hold
    obtain ⟨old, hbefore, hlabel⟩ := Option.map_eq_some_iff.mp hold
    exact ⟨old, hbefore, hlabel.symm⟩

/-- What the statements of `apply_response` leave for the last of them. -/
theorem applyResponse_rows {tables : UsageTables} {stored : EventTable}
    (hprior : (priorReceipt jsonbText stored new.byteOffset new.usage.messageId).map
      (fun row => (row.timestamp, extractClaudeUsage row.payload)) =
        prior.map fun p => (p.timestamp, some p.usage))
    (hreceipt : receiptOf e = some new)
    (h : applyResponse jsonbText db stored new.byteOffset new.timestamp new.usage = some tables) :
    ∃ dropped, dropped.session = some (updatedRow (db.session.getD
        (insertedRow new.byteOffset new.timestamp)) new.byteOffset new.timestamp new.usage
          (correction prior new)) ∧
      dropped.daily = db.daily ∧
      (∀ (key : Day × String) (row : ModelRow), dropped.models[key]? = some row →
        Relabelled db.models new key row) ∧
      (if ∃ p ∈ prior, p.timestamp.dateNaive ≠ new.timestamp.dateNaive then
        rebuildDailySnapshots dropped
      else some (snapshotDaily dropped new.timestamp)) = some tables := by
  rw [applyResponse_eq hprior, dailyDelta_receipt hreceipt] at h
  obtain ⟨db₁, h₁, h⟩ := Option.bind_eq_some_iff.mp h
  obtain ⟨db₂, h₂, h⟩ := Option.bind_eq_some_iff.mp h
  obtain ⟨db₃, h₃, h⟩ := Option.bind_eq_some_iff.mp h
  have hfirst : db₁.session = some (updatedRow (db.session.getD
      (insertedRow new.byteOffset new.timestamp)) new.byteOffset new.timestamp new.usage
        (correction prior new)) ∧ db₁.daily = db.daily ∧ db₁.models = db.models := by
    rw [updateSession_eq rfl] at h₁
    split at h₁
    · obtain rfl := Option.some.inj h₁
      exact ⟨rfl, rfl, rfl⟩
    · cases h₁
  obtain ⟨hsession, hdaily, hlabels⟩ := withdrawPrior_keeps h₂
  have hthird : db₃.session = db₂.session ∧ db₃.daily = db₂.daily ∧
      db₃.models = db₂.models.insert new.bucket (addedRow (db₂.models[new.bucket]?)
        TranscriptSource.claudeCode.agentId new.usage.spend.tokens new.usage.messageId) := by
    have hadd : addModelDaily db₂ TranscriptSource.claudeCode.agentId new.bucket.2 new.timestamp
        new.usage.spend.tokens new.usage.messageId = some db₃ := h₃
    rw [addModelDaily_eq rfl] at hadd
    split at hadd
    · obtain rfl := Option.some.inj hadd
      exact ⟨rfl, rfl, rfl⟩
    · cases hadd
  obtain ⟨hsession', hdaily', hmodels'⟩ := @dropEmpty_keeps jsonbText new db₃ prior stored
  refine ⟨_, ?_, ?_, fun key row hrow => ?_, h⟩
  · rw [hsession', hthird.1, hsession, hfirst.1]
  · rw [hdaily', hthird.2.1, hdaily, hfirst.2.1]
  · have hkeeps : ∀ key : Day × String,
        (db₂.models[key]?).map rowLabel = (db.models[key]?).map rowLabel := by
      intro key
      rw [hlabels key, hfirst.2.2]
    have hinserted := hmodels' key row hrow
    rw [hthird.2.2] at hinserted
    exact relabelled_insert hkeeps hinserted

/-! ## One more record -/

theorem lastWindow_append (all : List Receipt) (new : Receipt) :
    lastWindow (all ++ [new]) = new.usage.modelContextWindow.or (lastWindow all) := by
  unfold lastWindow
  rw [List.filterMap_append]
  cases h : new.usage.modelContextWindow with
  | none => simp [h]
  | some window => simp [h]

/-- A bucket stands where it holds a receipt, with the id it has kept. -/
theorem ClaudeLive.storedId (h : ClaudeLive events s) (key : Day × String) :
    ((s.tables.models[key]?).bind fun row => row.lastUsageMessageId) =
      if ∃ r ∈ latest (receipts events), r.bucket = key then keptId (receipts events) key
      else Option.none := by
  show _ = if ∃ r ∈ heldReceipts events, r.bucket = key then keptId (receipts events) key
    else Option.none
  have hbilled := h.billed.models key
  cases hrow : s.tables.models[key]? with
  | none =>
      rw [hrow] at hbilled
      split at hbilled
      · cases hbilled
      · rename_i hno
        exact (if_neg hno).symm
  | some row =>
      rw [hrow] at hbilled
      split at hbilled
      · rename_i hyes
        rw [if_pos hyes, Option.bind_some, (h.models key row hrow).2]
      · cases hbilled

/-- **One receipt.** -/
theorem ClaudeLive.receipt {tables : UsageTables} (h : ClaudeLive events s)
    (hbilled : Billed (events ++ [e]) ⟨s.events.insert e.1 e.2, tables⟩)
    (hlt : ∀ e' ∈ events, e'.1 < e.1) (horder : ByteOrder events)
    (hdays : ∀ r ∈ receipts (events ++ [e]), r.timestamp.dateNaive ≤ new.timestamp.dateNaive)
    (hkeys : KeysDistinct jsonbText (events ++ [e])) (hcharges : ChargesFit (events ++ [e]))
    (hreceipt : receiptOf e = some new)
    (happly : applyResponse jsonbText s.tables
      (s.events.insert e.1 e.2) new.byteOffset new.timestamp
      new.usage = some tables) :
    ClaudeLive (events ++ [e]) ⟨s.events.insert e.1 e.2, tables⟩ := by
  obtain ⟨hextract, hoffset, -⟩ := receiptOf_eq_some_iff.mp hreceipt
  have hreceipts : receipts (events ++ [e]) = receipts events ++ [new] := by
    rw [receipts_append, hreceipt]
    rfl
  have hheld : heldReceipts (events ++ [e]) = remaining events new ++ [new] :=
    heldReceipts_append hreceipt fun r hr => by
      obtain ⟨e', he', hr⟩ := mem_receipts_iff.mp hr
      rw [(receiptOf_eq_some_iff.mp hr).2.1, hoffset]
      exact hlt e' he'
  obtain ⟨prior, hprior, hfound⟩ := priorReceipt_eq h.billed.stored hlt horder hkeys hreceipt
  obtain ⟨dropped, hsession, hdaily, hmodels, hlast⟩ :=
    applyResponse_rows (by rw [hoffset]; exact hfound) hreceipt happly
  have hnew : new ∈ heldReceipts (events ++ [e]) := by
    rw [hheld]
    exact List.mem_append_right _ (List.mem_singleton_self new)
  have hagent : (s.tables.session.getD (insertedRow new.byteOffset new.timestamp)).agent =
        TranscriptSource.claudeCode.agentId ∧
      (s.tables.session.getD (insertedRow new.byteOffset new.timestamp)).modelContextWindow =
        lastWindow (receipts events) := by
    rcases List.eq_nil_or_concat (receipts events) with hnil | ⟨before, last, hsplit⟩
    · rw [h.none hnil, hnil]
      exact ⟨rfl, rfl⟩
    · rw [List.concat_eq_append] at hsplit
      obtain ⟨row, hrow, -, hwindow, hagent⟩ := h.session last (by rw [hsplit]; simp)
      rw [hrow]
      exact ⟨hagent, hwindow⟩
  -- the last statement leaves the session row and the buckets
  have hends : tables.session = dropped.session ∧ tables.models = dropped.models ∧
      ∀ day : Day, tables.daily[day]? = snapshotAt (events ++ [e]) day := by
    by_cases hmoved : ∃ p ∈ prior, p.timestamp.dateNaive ≠ new.timestamp.dateNaive
    · rw [if_pos hmoved] at hlast
      have hkeep : tables.session = dropped.session ∧ tables.models = dropped.models := by
        unfold rebuildDailySnapshots at hlast
        simp only at hlast
        split at hlast
        · obtain rfl := Option.some.inj hlast
          exact ⟨rfl, rfl⟩
        · cases hlast
      refine ⟨hkeep.1, hkeep.2, fun day => ?_⟩
      exact lookup_rebuild (hbilled.models.congr hkeep.2.symm) hlast day
    · rw [if_neg hmoved] at hlast
      push Not at hmoved
      unfold snapshotDaily at hlast
      rw [hsession] at hlast
      simp only at hlast
      obtain rfl := Option.some.inj hlast
      refine ⟨hsession.symm, rfl, fun day => ?_⟩
      show (dropped.daily.insert new.timestamp.dateNaive _)[day]? = _
      rw [Table.lookup_insert, hdaily]
      by_cases hday : new.timestamp.dateNaive = day
      · subst hday
        have hall : ∀ r ∈ heldReceipts (events ++ [e]),
            (True ↔ r.timestamp.dateNaive ≤ new.timestamp.dateNaive) := fun r hr =>
          ⟨fun _ => hdays r (mem_heldReceipts_iff.mp hr).1, fun _ => trivial⟩
        have hspend : (updatedRow (s.tables.session.getD
            (insertedRow new.byteOffset new.timestamp)) new.byteOffset new.timestamp new.usage
              (correction prior new)).spend =
            ((heldReceipts (events ++ [e])).map (·.usage.spend)).sum := hbilled.session
        rw [sum_spend_eq fun r hr =>
          (receipt_spend hcharges (mem_heldReceipts_iff.mp hr).1).1] at hspend
        rw [if_pos rfl, snapshotAt, if_pos ⟨new, hnew, rfl⟩, ← sumWhere_congr hall, sumWhere_true,
          hspend]
        show some (⟨_, _⟩ : DailyRow) = some ⟨_, _⟩
        rw [← hagent.1]
        rfl
      · rw [if_neg hday, h.daily day, snapshotAt_of_ne hprior hheld hdays hmoved hday]
  obtain ⟨hsession', hmodels', hdaily'⟩ := hends
  refine ⟨hbilled, fun hnone => ?_, fun last hlast => ?_, hdaily', fun key row hrow => ?_⟩
  · rw [hreceipts] at hnone
    simp at hnone
  · rw [hreceipts, List.getLast?_concat] at hlast
    obtain rfl := Option.some.inj hlast
    refine ⟨_, hsession'.trans hsession, rfl, ?_, hagent.1⟩
    rw [hreceipts, lastWindow_append, ← hagent.2]
    rfl
  · rw [hmodels'] at hrow
    have hlabel := hmodels key row hrow
    unfold Relabelled at hlabel
    rw [hreceipts, keptId_append]
    by_cases hkey : new.bucket = key
    · rw [if_pos hkey] at hlabel ⊢
      rw [h.storedId key] at hlabel
      exact ⟨(Prod.mk.inj hlabel).1, (Prod.mk.inj hlabel).2⟩
    · rw [if_neg hkey] at hlabel ⊢
      obtain ⟨old, hold, hlabel⟩ := hlabel
      obtain ⟨hagent', hid⟩ := h.models key old hold
      exact ⟨(Prod.mk.inj hlabel).1.trans hagent', (Prod.mk.inj hlabel).2.trans hid⟩

/-- **One record**, a receipt or not. -/
theorem ClaudeLive.step (h : ClaudeLive events s) (horder : ByteOrder (events ++ [e]))
    (htimes : (events ++ [e]).Pairwise fun e e' => e.2.timestamp ≤ e'.2.timestamp)
    (hkeys : KeysDistinct jsonbText (events ++ [e]))
    (hmodels : ∀ e' ∈ events ++ [e], ModelIsText e'.2.payload)
    (hcharges : ChargesFit (events ++ [e])) (hs : applyRecord jsonbText .claudeCode s e = some s') :
    ClaudeLive (events ++ [e]) s' := by
  have hbilled := (ends_applyRecord h.billed horder htimes hkeys hmodels).post s' hs
  obtain ⟨horder, -, hbelow⟩ := List.pairwise_append.mp horder
  have hlt : ∀ e' ∈ events, e'.1 < e.1 := fun e' he' => hbelow e' he' e (.head _)
  cases hreceipt : receiptOf e with
  | none =>
      have hheld : heldReceipts (events ++ [e]) = heldReceipts events :=
        heldReceipts_append_none hreceipt
      have hreceipts : receipts (events ++ [e]) = receipts events := by
        rw [receipts_append, hreceipt]
        exact List.append_nil _
      rw [applyRecord, upsert_of_none hreceipt] at hs
      obtain rfl := Option.some.inj hs
      refine ⟨hbilled, ?_, ?_, ?_, ?_⟩
      · rw [hreceipts]
        exact h.none
      · rw [hreceipts]
        exact h.session
      · intro day
        rw [snapshotAt, hheld]
        exact h.daily day
      · rw [hreceipts]
        exact h.models
  | some new =>
      rw [applyRecord, upsert_of_receipt h.billed hlt hreceipt] at hs
      obtain ⟨tables, happly, rfl⟩ := Option.map_eq_some_iff.mp hs
      exact h.receipt hbilled hlt horder (days_le_of_receipt htimes hreceipt) hkeys hcharges
        hreceipt
        happly

/-- **What live ingest leaves** of a session without an inherited record. -/
theorem ClaudeLive.run {before after : List SourceEvent} (h : ClaudeLive before s)
    (horder : ByteOrder (before ++ after))
    (htimes : (before ++ after).Pairwise fun e e' => e.2.timestamp ≤ e'.2.timestamp)
    (hkeys : KeysDistinct jsonbText (before ++ after))
    (hmodels : ∀ e ∈ before ++ after, ModelIsText e.2.payload)
    (hcharges : ChargesFit (before ++ after))
    (hlive : ∀ e ∈ after, e.2.subtype ≠ some inheritedHistory)
    (hs : ingestAll jsonbText .claudeCode s after = some s') : ClaudeLive (before ++ after) s' := by
  induction after generalizing before s with
  | nil =>
      obtain rfl := Option.some.inj hs
      rw [List.append_nil]
      exact h
  | cons e after ih =>
      obtain ⟨s₁, hs₁, hrest⟩ := Option.bind_eq_some_iff.mp hs
      have hsplit : before ++ e :: after = before ++ [e] ++ after := by simp
      rw [hsplit] at horder htimes hkeys hmodels hcharges ⊢
      have hkeys' : KeysDistinct jsonbText (before ++ [e]) := fun e he e' he' =>
        hkeys e (List.mem_append_left _ he) e' (List.mem_append_left _ he')
      rw [ingestUsage, if_neg (hlive e (.head _))] at hs₁
      have hstep :=
        h.step (List.pairwise_append.mp horder).1 (List.pairwise_append.mp htimes).1 hkeys'
        (fun e he => hmodels e (List.mem_append_left _ he)) hcharges.of_append hs₁
      exact ih hstep horder htimes hkeys hmodels hcharges
        (fun e he => hlive e (List.mem_cons_of_mem _ he)) hrest

end Sulion.Usage.Claude
