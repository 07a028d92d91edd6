import Sulion.Lib.Outcome
import Sulion.Usage.ClaudeReceipts

set_option autoImplicit false

/-! # Claude usage as the sum of its receipts

The usage tables of a Claude session should be sums over the held receipts: the session row of
all of them, a model bucket of those of its day and model, and a daily row of the buckets up
to its day.

`claude_charged_once` is what holds as long as the keys of the queries tell records apart.
`Billed` is the invariant one receipt keeps (`ends_applyResponse`); each statement of
`apply_response` has a lemma about what it does to the sums, and about when it succeeds.
-/

namespace Sulion.Usage.Claude

open Rust Ingest

/-! ## What is to hold -/

/-- The session row is the sum of the held receipts. -/
def SessionBilled (events : List SourceEvent) (db : UsageTables) : Prop :=
  db.session.elim 0 (·.spend) = ((heldReceipts events).map (·.usage.spend)).sum

/-- A bucket is the sum of its held receipts; there is no bucket without one. -/
def ModelsBilled (events : List SourceEvent) (db : UsageTables) : Prop :=
  ∀ key : Day × String, (db.models[key]?).map ModelRow.tokens =
    if ∃ r ∈ heldReceipts events, r.bucket = key then
      some (sumWhere (fun r => r.bucket = key) (·.usage.spend.tokens) (heldReceipts events))
    else none

/-- A daily row is the sum of the buckets up to its day. -/
def DailyBilled (db : UsageTables) : Prop :=
  ∀ (day : Day) (row : DailyRow), db.daily[day]? = some row →
    row.spend.tokens = sumWhere (fun e => e.1.1 ≤ day) (·.2.tokens) db.models.toList

variable {jsonbText : Json → String} {events : List SourceEvent} {s s' : UsageState}
  {e : SourceEvent} {r new : Receipt} {runs : Prop}

/-! ## What the statements do to the buckets -/

/-- The buckets satisfying `present` stand, each with the sum of its receipts in `items`. -/
def BucketSums (models : Table (Day × String) ModelRow) (present : Day × String → Prop)
    (items : List Receipt) : Prop :=
  ∀ key : Day × String, (present key → (models[key]?).map ModelRow.tokens =
    some (sumWhere (fun r => r.bucket = key) (·.usage.spend.tokens) items)) ∧
    (¬ present key → models[key]? = none)

/-- The bucket of some held receipt. -/
def Held (events : List SourceEvent) (key : Day × String) : Prop :=
  ∃ r ∈ heldReceipts events, r.bucket = key

theorem modelsBilled_iff {db : UsageTables} :
    ModelsBilled events db ↔ BucketSums db.models (Held events) (heldReceipts events) := by
  refine forall_congr' fun key => ?_
  by_cases h : ∃ r ∈ heldReceipts events, r.bucket = key
  · rw [if_pos h]
    exact ⟨fun hsum => ⟨fun _ => hsum, fun hno => absurd h hno⟩, fun hsum => hsum.1 h⟩
  · rw [if_neg h]
    exact ⟨fun hnone => ⟨fun hyes => absurd hyes h, fun _ => Option.map_eq_none_iff.mp hnone⟩,
      fun hsum => Option.map_eq_none_iff.mpr (hsum.2 h)⟩

theorem ModelsBilled.congr {db db' : UsageTables} (h : ModelsBilled events db)
    (hmodels : db'.models = db.models) : ModelsBilled events db' := by
  intro key
  rw [hmodels]
  exact h key

theorem BucketSums.row {models : Table (Day × String) ModelRow} {present : Day × String → Prop}
    {items : List Receipt} (h : BucketSums models present items) {key : Day × String}
    (hp : present key) : ∃ row, models[key]? = some row ∧
      row.tokens = sumWhere (fun r => r.bucket = key) (·.usage.spend.tokens) items :=
  Option.map_eq_some_iff.mp ((h key).1 hp)

/-- The replaced receipt is taken out of its bucket. -/
def withdrawPrior (db : UsageTables) (prior : Option Receipt) : Option UsageTables :=
  match prior with
  | none => some db
  | some p => withdrawModel db p.bucket p.usage.spend.tokens

theorem ends_withdraw {db : UsageTables} {prior : Option Receipt}
    (h : BucketSums db.models (Held events) (heldReceipts events))
    (hprior : Replaces events new prior)
    (hcount : runs → Counted (remaining events new)) :
    Ends runs (withdrawPrior db prior) fun db' =>
      BucketSums db'.models (Held events) (remaining events new) ∧ db'.session = db.session ∧
        db'.daily = db.daily := by
  cases prior with
  | none =>
      refine .some ⟨fun key => ⟨fun hp => ?_, (h key).2⟩, rfl, rfl⟩
      rw [(h key).1 hp, hprior.sumWhere_held]
      simp
  | some p =>
      have hheld : Held events p.bucket := ⟨p, (hprior.mem rfl).1, rfl⟩
      obtain ⟨row, hrow, htokens⟩ := h.row hheld
      have hleft : row.tokens - p.usage.spend.tokens =
          sumWhere (fun r => r.bucket = p.bucket) (·.usage.spend.tokens)
            (remaining events new) := by
        rw [htokens, hprior.sumWhere_held, Option.toList_some, sumWhere_cons, sumWhere_nil,
          if_pos rfl,
          add_zero, add_sub_cancel_left]
      simp only [withdrawPrior, withdrawModel, hrow]
      refine .guarded (fun hruns => ?_) fun _ => ⟨fun key => ?_, rfl, rfl⟩
      · rw [hleft]
        exact (hcount hruns).tokens _
      · rw [Table.lookup_insert]
        by_cases hkey : p.bucket = key
        · subst hkey
          rw [if_pos rfl, Option.map_some, hleft]
          exact ⟨fun _ => rfl, fun hno => absurd hheld hno⟩
        · rw [if_neg hkey]
          refine ⟨fun hp => ?_, (h key).2⟩
          rw [(h key).1 hp, hprior.sumWhere_held, Option.toList_some, sumWhere_cons, sumWhere_nil,
            if_neg hkey, add_zero, zero_add]

/-- The row `add_model_daily` writes. -/
def addedRow (old : Option ModelRow) (agent : String) (usage : Tokens) (messageId : Option String) :
    ModelRow :=
  match old with
  | none => ⟨agent, usage, messageId⟩
  | some row => ⟨agent, row.tokens + usage, messageId.or row.lastUsageMessageId⟩

theorem addedRow_tokens (old : Option ModelRow) (agent : String) (usage : Tokens)
    (messageId : Option String) :
    (addedRow old agent usage messageId).tokens = (old.elim 0 ModelRow.tokens) + usage := by
  cases old with
  | none => exact (zero_add usage).symm
  | some row => rfl

theorem addModelDaily_eq {db : UsageTables} {agent model : String} {observedAt : Timestamp}
    {usage : Tokens} {messageId : Option String} {row : ModelRow}
    (hrow : row = addedRow (db.models[(observedAt.dateNaive, model)]?) agent usage messageId) :
    addModelDaily db agent model observedAt usage messageId =
      if usage.Fit ∧ row.tokens.Fit then
        some { db with models := db.models.insert (observedAt.dateNaive, model) row }
      else none := by
  rw [hrow]
  rfl

theorem BucketSums.elim {models : Table (Day × String) ModelRow} {present : Day × String → Prop}
    {items : List Receipt} (h : BucketSums models present items)
    (hitems : ∀ r ∈ items, present r.bucket) (key : Day × String) :
    (models[key]?).elim 0 ModelRow.tokens =
      sumWhere (fun r => r.bucket = key) (·.usage.spend.tokens) items := by
  by_cases hp : present key
  · obtain ⟨row, hrow, htokens⟩ := h.row hp
    rw [hrow]
    exact htokens
  · have hnone : ∀ r ∈ items, ¬ r.bucket = key := fun r hr heq => hp (heq ▸ hitems r hr)
    rw [(h key).2 hp, sumWhere_of_forall_not hnone]
    rfl

/-- The new receipt is added to its bucket. -/
theorem ends_add {db : UsageTables} {present : Day × String → Prop} {items : List Receipt}
    {agent : String} {messageId : Option String} (h : BucketSums db.models present items)
    (hitems : ∀ r ∈ items, present r.bucket) (hfit : new.usage.spend.tokens.Fit)
    (hcount : runs → Counted (items ++ [new])) :
    Ends runs
      (addModelDaily db agent new.bucket.2 new.timestamp new.usage.spend.tokens messageId)
      fun db' =>
        BucketSums db'.models (fun key => present key ∨ new.bucket = key) (items ++ [new]) ∧
          db'.session = db.session ∧ db'.daily = db.daily := by
  have hsum : ∀ key, sumWhere (fun r => r.bucket = key) (·.usage.spend.tokens) (items ++ [new]) =
      sumWhere (fun r => r.bucket = key) (·.usage.spend.tokens) items
        + if new.bucket = key then new.usage.spend.tokens else 0 := by
    intro key
    rw [sumWhere_append, sumWhere_cons, sumWhere_nil, add_zero]
  obtain ⟨row, hrow⟩ : ∃ row, row = addedRow (db.models[new.bucket]?) agent new.usage.spend.tokens
    messageId := ⟨_, rfl⟩
  have htokens : row.tokens =
      sumWhere (fun r => r.bucket = new.bucket) (·.usage.spend.tokens) (items ++ [new]) := by
    rw [hrow, addedRow_tokens, h.elim hitems, hsum, if_pos rfl]
  have hadd : addModelDaily db agent new.bucket.2 new.timestamp new.usage.spend.tokens messageId =
      if new.usage.spend.tokens.Fit ∧ row.tokens.Fit then
        some { db with models := db.models.insert new.bucket row }
      else none := addModelDaily_eq hrow
  rw [hadd]
  refine .guarded (fun hruns => ⟨hfit, ?_⟩) fun _ => ⟨fun key => ?_, rfl, rfl⟩
  · rw [htokens]
    exact (hcount hruns).tokens _
  · change (_ → ((db.models.insert new.bucket row)[key]?).map _ = _) ∧
      (_ → (db.models.insert new.bucket row)[key]? = _)
    rw [Table.lookup_insert]
    by_cases hkey : new.bucket = key
    · subst hkey
      rw [if_pos rfl, Option.map_some, htokens]
      exact ⟨fun _ => rfl, fun hno => absurd (.inr rfl) hno⟩
    · rw [if_neg hkey, hsum, if_neg hkey, add_zero]
      exact ⟨fun hp => (h key).1 (hp.resolve_right hkey),
        fun hno => (h key).2 fun hp => hno (.inl hp)⟩

/-- Another day or another model than the replaced receipt. -/
def moved (prior : Option Receipt) (new : Receipt) : Prop :=
  ∃ p ∈ prior, p.timestamp.dateNaive ≠ new.timestamp.dateNaive ∨ p.usage.model ≠ new.usage.model

instance (prior : Option Receipt) : Decidable (moved prior new) :=
  inferInstanceAs (Decidable (∃ p ∈ prior, _))

/-- Deleting the empty buckets, when one can be. -/
def dropEmpty (jsonbText : Json → String) (db : UsageTables) (events : EventTable)
    (prior : Option Receipt) (new : Receipt) : UsageTables :=
  if moved prior new then deleteEmptyBuckets jsonbText db events else db

/-- **The buckets after the deletion are those of the held receipts.** -/
theorem bucketSums_drop {db : UsageTables} {prior : Option Receipt}
    (hprior : Replaces events new prior)
    (hheld : heldReceipts (events ++ [e]) = remaining events new ++ [new])
    (h : BucketSums db.models (fun key => Held events key ∨ new.bucket = key)
      (remaining events new ++ [new]))
    (hany : ∀ key, ((distinctReceipts jsonbText s.events).any fun row =>
      receiptBucket jsonbText row == key) = true ↔ Held (events ++ [e]) key) :
    ModelsBilled (events ++ [e]) (dropEmpty jsonbText db s.events prior new) := by
  rw [modelsBilled_iff, hheld]
  have hsub : ∀ key, Held (events ++ [e]) key → Held events key ∨ new.bucket = key := by
    rintro key ⟨r, hr, hkey⟩
    rw [hheld] at hr
    rcases List.mem_append.mp hr with hr | hr
    · exact .inl ⟨r, remaining_subset hr, hkey⟩
    · exact .inr (List.mem_singleton.mp hr ▸ hkey)
  unfold dropEmpty
  split
  · intro key
    have hlookup : (deleteEmptyBuckets jsonbText db s.events).models[key]? =
        (db.models[key]?).filter fun _ => (distinctReceipts jsonbText s.events).any fun row =>
          receiptBucket jsonbText row == key := by
      simp [deleteEmptyBuckets, Std.ExtTreeMap.getElem?_filter]
    rw [hlookup]
    constructor
    · intro hp
      rw [(hany key).mpr hp]
      simpa using (h key).1 (hsub key hp)
    · intro hno
      rw [Bool.eq_false_iff.mpr fun hyes => hno ((hany key).mp hyes)]
      simp
  · rename_i hstay
    -- A replaced receipt was in the bucket of the new one, so no bucket lost its last one.
    have hkeep : ∀ key, Held events key ∨ new.bucket = key → Held (events ++ [e]) key := by
      have hnew : Held (events ++ [e]) new.bucket := ⟨new, by rw [hheld]; simp, rfl⟩
      rintro key (⟨r, hr, rfl⟩ | rfl)
      · rcases hprior.cases hr with hmem | hmem
        · exact ⟨r, by rw [hheld]; simp [hmem], rfl⟩
        · have hsame : r.bucket = new.bucket := by
            by_contra hne
            refine hstay ⟨r, hmem, ?_⟩
            by_contra heq
            push Not at heq
            exact hne (by rw [Receipt.bucket, Receipt.bucket, heq.1, heq.2])
          exact hsame ▸ hnew
      · exact hnew
    exact fun key => ⟨fun hp => (h key).1 (hsub key hp), fun hno => (h key).2 (mt (hkeep key) hno)⟩

/-! ## Daily rows -/

/-- The buckets group the held receipts. -/
theorem grouped_models {db : UsageTables} (h : ModelsBilled events db) :
    Grouped Receipt.bucket (·.usage.spend.tokens) (heldReceipts events)
      (db.models.toList.map fun e => (e.1, e.2.tokens)) where
  nodup := by
    rw [List.map_map]
    exact Table.nodup_keys db.models
  sum e he := by
    obtain ⟨⟨key, row⟩, hmem, rfl⟩ := List.mem_map.mp he
    rw [Std.ExtTreeMap.mem_toList_iff_getElem?_eq_some] at hmem
    have hkey := h key
    rw [hmem, Option.map_some] at hkey
    split at hkey
    · exact Option.some.inj hkey
    · cases hkey
  keys r hr := by
    obtain ⟨row, hrow, _⟩ := (modelsBilled_iff.mp h).row ⟨r, hr, rfl⟩
    exact List.mem_map.mpr ⟨(r.bucket, row.tokens), List.mem_map.mpr ⟨(r.bucket, row),
      Std.ExtTreeMap.mem_toList_iff_getElem?_eq_some.mpr hrow, rfl⟩, rfl⟩

/-- The buckets up to a day add up to the held receipts up to the day. -/
theorem sumWhere_models {db : UsageTables} (h : ModelsBilled events db) (day : Day) :
    sumWhere (fun e => e.1.1 ≤ day) (·.2.tokens) db.models.toList =
      sumWhere (fun r => r.timestamp.dateNaive ≤ day) (·.usage.spend.tokens)
        (heldReceipts events) := by
  refine Eq.trans ?_ ((grouped_models h).sum_filter fun key => key.1 ≤ day)
  rw [sumWhere_map]

theorem mem_runningSums {entries : List (Day × Tokens)} (hsorted : entries.Pairwise (·.1 < ·.1))
    {before total : Tokens} {day : Day} (h : (day, total) ∈ runningSums before entries) :
    total = before + sumWhere (fun e => e.1 ≤ day) Prod.snd entries ∧
      day ∈ entries.map Prod.fst := by
  induction entries generalizing before with
  | nil => cases h
  | cons e entries ih =>
      rw [List.pairwise_cons] at hsorted
      rw [sumWhere_cons, List.map_cons]
      rcases List.mem_cons.mp h with heq | h
      · cases heq
        have hlater : ∀ e' ∈ entries, ¬ e'.1 ≤ e.1 := fun e' he' => not_le.mpr (hsorted.1 e' he')
        rw [if_pos (le_refl _), sumWhere_of_forall_not hlater, add_zero]
        exact ⟨rfl, .head _⟩
      · obtain ⟨hsum, hmem⟩ := ih hsorted.2 h
        obtain ⟨e', he', rfl⟩ := List.mem_map.mp hmem
        rw [if_pos (hsorted.1 e' he').le, hsum, add_assoc]
        exact ⟨rfl, .tail _ hmem⟩

theorem snapshotRow_tokens (tokens : Tokens) : (snapshotRow tokens).spend.tokens = tokens := rfl

/-- A snapshot of counts fits its row. -/
theorem snapshotRow_fit {tokens : Tokens} (h : tokens.Fit) (hsum : IsCount tokens.sum) :
    (snapshotRow tokens).spend.Fit := by
  rw [Spend.fit_iff]
  rw [Tokens.fit_iff] at h
  intro column
  cases column with
  | token column => exact h column
  | reasoningOutputTokens => exact isCount_zero
  | totalTokens => exact hsum

/-- A running sum of the days is the sum of the buckets up to its day. -/
theorem mem_runningSums_models {models : Table (Day × String) ModelRow} {day : Day} {total : Tokens}
    (h : (day, total) ∈ runningSums 0 (dailySums models)) :
    total = sumWhere (fun e => e.1.1 ≤ day) (·.2.tokens) models.toList ∧
      ∃ e ∈ models.toList, e.1.1 = day := by
  have hsorted : (dailySums models).Pairwise (·.1 < ·.1) :=
    (Std.ExtTreeMap.ordered_keys_toList).imp compare_lt_iff_lt.mp
  have hgrouped := Table.grouped_mergeList (fun e : (Day × String) × ModelRow => e.1.1)
    (fun e => e.2.tokens) models.toList
  obtain ⟨hsum, hday⟩ := mem_runningSums hsorted h
  refine ⟨?_, ?_⟩
  · rw [hsum, zero_add]
    exact hgrouped.sum_filter (· ≤ day)
  · obtain ⟨e, he, rfl⟩ := List.mem_map.mp hday
    rw [dailySums, Std.ExtTreeMap.mem_toList_iff_getElem?_eq_some, Table.lookup_mergeList_add] at he
    split at he
    · rename_i hsome
      obtain ⟨e', he', hkey⟩ := hsome
      obtain ⟨bucket, hbucket, rfl⟩ := List.mem_map.mp he'
      exact ⟨bucket, hbucket, hkey⟩
    · cases he

/-- The daily rows are the held receipts up to their days. -/
def DailySums (events : List SourceEvent) (daily : Table Day DailyRow) : Prop :=
  ∀ (day : Day) (row : DailyRow), daily[day]? = some row → row.spend.tokens =
    sumWhere (fun r => r.timestamp.dateNaive ≤ day) (·.usage.spend.tokens) (heldReceipts events)

/-- No daily row is later than the last receipt. -/
def DaysReached (events : List SourceEvent) (daily : Table Day DailyRow) : Prop :=
  ∀ (day : Day) (row : DailyRow), daily[day]? = some row →
    ∃ r ∈ receipts events, day ≤ r.timestamp.dateNaive

/-- **Rebuilt daily rows are right.** -/
theorem ends_rebuild {db : UsageTables} (h : ModelsBilled events db)
    (hcount : runs → Counted (heldReceipts events)) :
    Ends runs (rebuildDailySnapshots db) fun db' => db'.session = db.session ∧
      db'.models = db.models ∧ DailySums events db'.daily ∧ DaysReached events db'.daily := by
  refine .guarded (fun hruns => ?_) fun _ =>
    ⟨rfl, rfl, fun day row hrow => ?_, fun day row hrow => ?_⟩
  · intro e he
    obtain ⟨⟨day, total⟩, hmem, rfl⟩ := List.mem_map.mp he
    obtain ⟨rfl, _⟩ := mem_runningSums_models hmem
    rw [sumWhere_models h]
    exact snapshotRow_fit ((hcount hruns).tokens _) ((hcount hruns).sum _)
  all_goals
    obtain ⟨before, after, hsplit, _⟩ := Table.lookup_ofRows_iff.mp hrow
    obtain ⟨⟨day', total⟩, hmem, heq⟩ : ∃ e ∈ runningSums 0 (dailySums db.models),
        (e.1, snapshotRow e.2) = (day, row) := List.mem_map.mp (by rw [hsplit]; simp)
    obtain ⟨rfl, rfl⟩ := Prod.mk.inj heq
    obtain ⟨hsum, bucket, hbucket, hday⟩ := mem_runningSums_models hmem
  · rw [snapshotRow_tokens, hsum, sumWhere_models h]
  · rw [Std.ExtTreeMap.mem_toList_iff_getElem?_eq_some] at hbucket
    have hkey := h bucket.1
    rw [hbucket] at hkey
    split at hkey
    · rename_i hheld
      obtain ⟨r, hr, hrbucket⟩ := hheld
      exact ⟨r, (mem_heldReceipts_iff.mp hr).1, by rw [← hday, ← hrbucket]; exact le_refl _⟩
    · cases hkey

/-- **A snapshot keeps the earlier rows right**, when the replaced receipt is of the same day. -/
theorem dailySums_snapshot {db : UsageTables} {prior : Option Receipt}
    (hprior : Replaces events new prior)
    (hheld : heldReceipts (events ++ [e]) = remaining events new ++ [new])
    (hdays : ∀ r ∈ receipts (events ++ [e]), r.timestamp.dateNaive ≤ new.timestamp.dateNaive)
    (hday : ∀ p ∈ prior, p.timestamp.dateNaive = new.timestamp.dateNaive)
    {record : SessionRow} (hrecord : db.session = some record)
    (hsession : record.spend.tokens =
      ((heldReceipts (events ++ [e])).map (·.usage.spend.tokens)).sum)
    (hdaily : DailySums events db.daily) (hreached : DaysReached events db.daily) :
    DailySums (events ++ [e]) (snapshotDaily db new.timestamp).daily := by
  intro day row hrow
  simp only [snapshotDaily, hrecord, Table.lookup_insert] at hrow
  split at hrow
  · rename_i hcurrent
    cases hrow
    subst hcurrent
    have hall : ∀ r ∈ heldReceipts (events ++ [e]),
        (True ↔ r.timestamp.dateNaive ≤ new.timestamp.dateNaive) := fun r hr =>
      ⟨fun _ => hdays r (mem_heldReceipts_iff.mp hr).1, fun _ => trivial⟩
    rw [← sumWhere_congr hall, sumWhere_true]
    exact hsession
  · rename_i hother
    obtain ⟨r, hr, hle⟩ := hreached day row hrow
    have hlast := hdays r (by rw [receipts_append]; exact List.mem_append_left _ hr)
    have hlt : day < new.timestamp.dateNaive := lt_of_le_of_ne (hle.trans hlast) (Ne.symm hother)
    have hpriorDay : ∀ q ∈ prior.toList, ¬ q.timestamp.dateNaive ≤ day := fun q hq =>
      not_le.mpr (hday q (Option.mem_toList.mp hq) ▸ hlt)
    have hnewDay : ∀ q ∈ [new], ¬ q.timestamp.dateNaive ≤ day := fun q hq =>
      not_le.mpr (List.mem_singleton.mp hq ▸ hlt)
    rw [hdaily day row hrow, hprior.sumWhere_held, sumWhere_of_forall_not hpriorDay,
      zero_add, hheld,
      sumWhere_append, sumWhere_of_forall_not hnewDay, add_zero]

/-! ## One more record -/

/-- What the usage rows are after a run of records. -/
structure Billed (events : List SourceEvent) (s : UsageState) : Prop where
  stored : Stored s events
  session : SessionBilled events s.tables
  models : ModelsBilled events s.tables
  daily : DailySums events s.tables.daily
  reached : DaysReached events s.tables.daily
  offset : ∀ row ∈ s.tables.session, ∃ e ∈ events, row.lastByteOffset = e.1
  fit : ∀ row ∈ s.tables.session, row.Fit

theorem Billed.dailyBilled (h : Billed events s) : DailyBilled s.tables := fun day row hrow =>
  (h.daily day row hrow).trans (sumWhere_models h.models day).symm

theorem billed_empty : Billed [] .empty where
  stored k row := by simp [UsageState.empty]
  session := rfl
  models key := by simp [UsageState.empty, UsageTables.empty, heldReceipts, latest, receipts]
  daily day row h := by simp [UsageState.empty, UsageTables.empty] at h
  reached day row h := by simp [UsageState.empty, UsageTables.empty] at h
  offset row h := by cases h
  fit row h := by cases h

/-- The charge of a receipt in place of the one it replaces. -/
def correction (prior : Option Receipt) (new : Receipt) : Spend :=
  prior.elim new.usage.spend fun p => new.usage.spend - p.usage.spend

/-- `apply_response`, statement by statement. -/
theorem applyResponse_eq {db : UsageTables} {stored : EventTable} {prior : Option Receipt}
    (hprior : (priorReceipt jsonbText stored new.byteOffset new.usage.messageId).map
      (fun row => (row.timestamp, extractClaudeUsage row.payload)) =
        prior.map fun p => (p.timestamp, some p.usage)) :
    applyResponse jsonbText db stored new.byteOffset new.timestamp new.usage =
      (updateSession db new.byteOffset new.timestamp new.usage (correction prior new)).bind
        fun db =>
      (withdrawPrior db prior).bind fun db =>
      (addModelDaily db TranscriptSource.claudeCode.agentId new.bucket.2 new.timestamp
        (dailyDelta new.usage none) new.usage.messageId).bind fun db =>
      if ∃ p ∈ prior, p.timestamp.dateNaive ≠ new.timestamp.dateNaive then
        rebuildDailySnapshots (dropEmpty jsonbText db stored prior new)
      else some (snapshotDaily (dropEmpty jsonbText db stored prior new) new.timestamp) := by
  cases hrow : priorReceipt jsonbText stored new.byteOffset new.usage.messageId with
  | none =>
      rw [hrow] at hprior
      cases prior with
      | none =>
          simp [applyResponse, hrow, correction, withdrawPrior, dropEmpty, moved, Receipt.bucket]
      | some p => cases hprior
  | some row =>
      rw [hrow] at hprior
      cases prior with
      | none => cases hprior
      | some p =>
          obtain ⟨htime, hextract⟩ := Prod.mk.inj (Option.some.inj hprior)
          simp [applyResponse, hrow, hextract, htime, correction, withdrawPrior, dropEmpty, moved,
            Receipt.bucket]

/-- A receipt is charged whole. -/
theorem dailyDelta_receipt (hreceipt : receiptOf e = some new) :
    dailyDelta new.usage none = new.usage.spend.tokens := by
  have hextract := (receiptOf_eq_some_iff.mp hreceipt).1
  have hmode : new.usage.mode = .delta := by
    obtain ⟨object, _, husage⟩ := Option.map_eq_some_iff.mp hextract
    rw [← husage]
  have hid : ¬ (new.usage.messageId.isSome ∧ none = new.usage.messageId) := by
    rintro ⟨hsome, hnone⟩
    simp [← hnone] at hsome
  funext column
  simp only [dailyDelta, hmode, Option.bind_none, if_neg hid]
  exact max_eq_left (isCount_extractClaudeUsage hextract (.token column)).1

theorem Replaces.spend_held {prior : Option Receipt} (h : Replaces events new prior)
    (hheld : heldReceipts (events ++ [e]) = remaining events new ++ [new]) :
    ((heldReceipts (events ++ [e])).map (·.usage.spend)).sum =
      ((heldReceipts events).map (·.usage.spend)).sum + correction prior new := by
  have hbefore := h.sumWhere_held (fun _ => True) (·.usage.spend)
  rw [sumWhere_true, sumWhere_true, sumWhere_true] at hbefore
  rw [hbefore, hheld, List.map_append, List.sum_append]
  cases prior with
  | none => simp [correction]
  | some p =>
      simp only [correction, Option.toList_some, List.map_cons, List.map_nil, List.sum_cons,
        List.sum_nil, Option.elim_some]
      abel

/-- The session row after a receipt. -/
theorem updateSession_eq {db : UsageTables} {byteOffset : Int} {observedAt : Timestamp}
    {usage : UsageUpdate} {delta : Spend} {row : SessionRow}
    (hrow : row = updatedRow (db.session.getD (insertedRow byteOffset observedAt)) byteOffset
      observedAt usage delta) :
    updateSession db byteOffset observedAt usage delta =
      if row.Fit then some { db with session := some row } else none := by
  rw [hrow]
  rfl

theorem updatedRow_spend {db : UsageTables} {byteOffset : Int} {observedAt : Timestamp}
    {usage : UsageUpdate} {delta : Spend} :
    (updatedRow (db.session.getD (insertedRow byteOffset observedAt)) byteOffset observedAt usage
      delta).spend = db.session.elim 0 (·.spend) + delta := by
  cases db.session <;> rfl

/-- **The session row is the sum of the held receipts.** -/
theorem ends_updateSession {db : UsageTables} {prior : Option Receipt}
    (hreceipt : receiptOf e = some new)
    (hprior : Replaces events new prior)
    (hheld : heldReceipts (events ++ [e]) = remaining events new ++ [new])
    (hsession : SessionBilled events db) (hfit : ∀ row ∈ db.session, row.Fit)
    (hcount : runs → Counted (heldReceipts (events ++ [e]))) :
    Ends runs (updateSession db new.byteOffset new.timestamp new.usage (correction prior new))
      fun db' => ∃ row, db' = { db with session := some row } ∧ row.Fit ∧
        row.spend = ((heldReceipts (events ++ [e])).map (·.usage.spend)).sum ∧
        row.lastByteOffset = new.byteOffset := by
  obtain ⟨row, hrow⟩ : ∃ row, row = updatedRow (db.session.getD
    (insertedRow new.byteOffset new.timestamp)) new.byteOffset new.timestamp new.usage
      (correction prior new) := ⟨_, rfl⟩
  have hspend : row.spend = ((heldReceipts (events ++ [e])).map (·.usage.spend)).sum := by
    rw [hrow, updatedRow_spend, hsession, hprior.spend_held hheld]
  have hextract := (receiptOf_eq_some_iff.mp hreceipt).1
  rw [updateSession_eq hrow]
  refine .guarded (fun hruns => ⟨?_, ?_, ?_⟩) fun hrowFit =>
    ⟨row, rfl, hrowFit, hspend, by rw [hrow]; rfl⟩
  · rw [hspend, Spend.fit_iff, ← sumWhere_true]
    intro column
    rw [sumWhere_spend]
    exact (hcount hruns).spend _ column
  · intro tokens htokens
    have htotal : new.usage.contextTokens = some (new.usage.spend .totalTokens) := by
      obtain ⟨object, _, husage⟩ := Option.map_eq_some_iff.mp hextract
      rw [← husage]
      rfl
    have hcontext : row.contextTokens = new.usage.contextTokens := by
      rw [hrow]
      rfl
    rw [hcontext, htotal] at htokens
    obtain rfl := Option.some.inj htokens
    exact (isCount_extractClaudeUsage hextract .totalTokens).1
  · intro window hwindow
    have hor : row.modelContextWindow = new.usage.modelContextWindow.or
        (db.session.getD (insertedRow new.byteOffset new.timestamp)).modelContextWindow := by
      rw [hrow]
      rfl
    rw [hor] at hwindow
    rcases Option.or_eq_some_iff.mp hwindow with hnew | ⟨_, hold⟩
    · exact window_extractUsage (show extractUsage .claudeCode e.2.payload = _ from hextract) hnew
    · cases hsome : db.session with
      | none =>
          rw [hsome] at hold
          cases hold
      | some before =>
          rw [hsome] at hold
          exact (hfit before hsome).window window hold

/-- **One receipt keeps the sums.** -/
theorem ends_applyResponse (h : Billed events s) (hlt : ∀ e' ∈ events, e'.1 < e.1)
    (horder : ByteOrder events)
    (hdays : ∀ r ∈ receipts (events ++ [e]), r.timestamp.dateNaive ≤ new.timestamp.dateNaive)
    (hkeys : KeysDistinct jsonbText (events ++ [e]))
    (hmodels : ∀ e' ∈ events ++ [e], ModelIsText e'.2.payload) (hreceipt : receiptOf e = some new) :
    Ends (ChargesFit (events ++ [e]))
      (applyResponse jsonbText s.tables (s.events.insert e.1 e.2) new.byteOffset new.timestamp
        new.usage)
      fun tables => Billed (events ++ [e]) ⟨s.events.insert e.1 e.2, tables⟩ := by
  obtain ⟨hextract, hoffset, _⟩ := receiptOf_eq_some_iff.mp hreceipt
  have hstored : Stored ⟨s.events.insert e.1 e.2, s.tables⟩ (events ++ [e]) := h.stored.insert hlt
  have hheld : heldReceipts (events ++ [e]) = remaining events new ++ [new] :=
    heldReceipts_append hreceipt fun r hr => by
      obtain ⟨e', he', hr⟩ := mem_receipts_iff.mp hr
      rw [(receiptOf_eq_some_iff.mp hr).2.1, hoffset]
      exact hlt e' he'
  have hany := any_distinctReceipts hstored hkeys hmodels
  have hcount : ChargesFit (events ++ [e]) → Counted (heldReceipts (events ++ [e])) :=
    counted_of_sublist List.filter_sublist
  have hcountLeft : ChargesFit (events ++ [e]) → Counted (remaining events new) := by
    refine counted_of_sublist ((List.sublist_append_left _ [new]).trans ?_)
    rw [← hheld]
    exact List.filter_sublist
  obtain ⟨prior, hprior, hfound⟩ := priorReceipt_eq h.stored hlt horder hkeys hreceipt
  rw [applyResponse_eq (by rw [hoffset]; exact hfound), dailyDelta_receipt hreceipt]
  refine (ends_updateSession hreceipt hprior hheld h.session h.fit hcount).bind ?_
  rintro db ⟨row, rfl, hrowFit, hspend, hrowOffset⟩
  have hmodelsBefore : BucketSums ({ s.tables with session := some row } : UsageTables).models
      (Held events) (heldReceipts events) := modelsBilled_iff.mp h.models
  refine (ends_withdraw hmodelsBefore hprior hcountLeft).bind ?_
  rintro db ⟨hbuckets, hsession, hdaily⟩
  refine (ends_add hbuckets (fun r hr => ⟨r, remaining_subset hr, rfl⟩)
    (Tokens.fit_iff.mpr fun column => isCount_extractClaudeUsage hextract (.token column))
    (fun hruns => hheld ▸ hcount hruns)).bind ?_
  rintro db' ⟨hbuckets', hsession', hdaily'⟩
  have hbilled := bucketSums_drop hprior hheld hbuckets' hany
  have hdrop : ∀ db : UsageTables,
      (dropEmpty jsonbText db (s.events.insert e.1 e.2) prior new).session = db.session ∧
        (dropEmpty jsonbText db (s.events.insert e.1 e.2) prior new).daily = db.daily := by
    intro db
    unfold dropEmpty
    split <;> exact ⟨rfl, rfl⟩
  have hrow : (dropEmpty jsonbText db' (s.events.insert e.1 e.2) prior new).session = some row := by
    rw [(hdrop db').1, hsession', hsession]
  have hdailyBefore : (dropEmpty jsonbText db' (s.events.insert e.1 e.2) prior new).daily
      = s.tables.daily := by
    rw [(hdrop db').2, hdaily', hdaily]
  have hsum : ∀ tables : UsageTables, tables.session = some row →
      SessionBilled (events ++ [e]) tables := by
    intro tables htables
    rw [SessionBilled, htables]
    exact hspend
  have hmem : e ∈ events ++ [e] := by simp
  split
  · refine (ends_rebuild hbilled hcount).mono id ?_
    rintro tables ⟨htables, hmodels', hdays', hreached'⟩
    rw [hrow] at htables
    exact ⟨hstored, hsum tables htables, hbilled.congr hmodels', hdays', hreached',
      fun r hr => ⟨e, hmem, Option.some.inj (htables.symm.trans hr) ▸ hrowOffset.trans hoffset⟩,
      fun r hr => Option.some.inj (htables.symm.trans hr) ▸ hrowFit⟩
  · rename_i hstay
    push Not at hstay
    have htokens : row.spend.tokens =
        ((heldReceipts (events ++ [e])).map (·.usage.spend.tokens)).sum := by
      rw [hspend, ← sumWhere_true, sumWhere_tokens, sumWhere_true]
    have hdailySums := dailySums_snapshot hprior hheld hdays hstay hrow htokens
      (hdailyBefore ▸ h.daily) (hdailyBefore ▸ h.reached)
    have hnew : new ∈ receipts (events ++ [e]) := mem_receipts_iff.mpr ⟨e, hmem, hreceipt⟩
    refine .some ⟨hstored, ?_, ?_, hdailySums, ?_, ?_, ?_⟩
    · refine hsum _ ?_
      simp only [snapshotDaily, hrow]
    · refine hbilled.congr ?_
      simp only [snapshotDaily, hrow]
    · intro day snapshot hsnapshot
      simp only [snapshotDaily, hrow, Table.lookup_insert, hdailyBefore] at hsnapshot
      split at hsnapshot
      · rename_i hcurrent
        exact ⟨new, hnew, hcurrent ▸ le_refl _⟩
      · obtain ⟨r, hr, hle⟩ := h.reached day snapshot hsnapshot
        exact ⟨r, by rw [receipts_append]; exact List.mem_append_left _ hr, hle⟩
    all_goals
      intro r hr
      simp only [snapshotDaily, hrow] at hr
      obtain rfl := Option.some.inj hr
    · exact ⟨e, hmem, hrowOffset.trans hoffset⟩
    · exact hrowFit

/-- A record that is no receipt is not applied. -/
theorem upsert_of_none (hreceipt : receiptOf e = none) :
    upsertFromEvent jsonbText s.tables (s.events.insert e.1 e.2) .claudeCode e.1 e.2.timestamp
      e.2.payload = some s.tables := by
  have hextract : extractUsage .claudeCode e.2.payload = none := Option.map_eq_none_iff.mp hreceipt
  rw [upsertFromEvent, hextract]

/-- A receipt behind the stored ones is applied. -/
theorem upsert_of_receipt (h : Billed events s) (hlt : ∀ e' ∈ events, e'.1 < e.1)
    (hreceipt : receiptOf e = some new) :
    upsertFromEvent jsonbText s.tables (s.events.insert e.1 e.2) .claudeCode e.1 e.2.timestamp
      e.2.payload = applyResponse jsonbText s.tables (s.events.insert e.1 e.2) new.byteOffset
        new.timestamp new.usage := by
  obtain ⟨hextract, hoffset, htime⟩ := receiptOf_eq_some_iff.mp hreceipt
  have hfresh : (s.tables.session.map SessionRow.stored).any
      (fun row => decide (e.1 ≤ row.lastByteOffset)) = false := by
    cases hrow : s.tables.session with
    | none => rfl
    | some row =>
        obtain ⟨e', he', heq⟩ := h.offset row hrow
        have hbefore := hlt e' he'
        rw [← heq] at hbefore
        exact decide_eq_false (not_le.mpr hbefore)
  have hextract' : extractUsage .claudeCode e.2.payload = some new.usage := hextract
  rw [hoffset, htime]
  simp only [upsertFromEvent, hextract', hfresh, Bool.false_eq_true, if_false, if_true]

/-- No receipt is of a later day than the last one. -/
theorem days_le_of_receipt
    (htimes : (events ++ [e]).Pairwise fun e e' => e.2.timestamp ≤ e'.2.timestamp)
    (hreceipt : receiptOf e = some new) :
    ∀ r ∈ receipts (events ++ [e]), r.timestamp.dateNaive ≤ new.timestamp.dateNaive := by
  obtain ⟨-, -, htime⟩ := receiptOf_eq_some_iff.mp hreceipt
  intro r hr
  obtain ⟨e', he', hr⟩ := mem_receipts_iff.mp hr
  rw [(receiptOf_eq_some_iff.mp hr).2.2, htime]
  refine Int.ediv_le_ediv (by decide) ?_
  rcases List.mem_append.mp he' with he' | he'
  · exact (List.pairwise_append.mp htimes).2.2 e' he' e (.head _)
  · exact List.mem_singleton.mp he' ▸ le_refl _

/-- **One record keeps the sums**, a receipt or not. -/
theorem ends_applyRecord (h : Billed events s) (horder : ByteOrder (events ++ [e]))
    (htimes : (events ++ [e]).Pairwise fun e e' => e.2.timestamp ≤ e'.2.timestamp)
    (hkeys : KeysDistinct jsonbText (events ++ [e]))
    (hmodels : ∀ e' ∈ events ++ [e], ModelIsText e'.2.payload) :
    Ends (ChargesFit (events ++ [e])) (applyRecord jsonbText .claudeCode s e)
      (Billed (events ++ [e])) := by
  obtain ⟨horder, -, hbelow⟩ := List.pairwise_append.mp horder
  have hlt : ∀ e' ∈ events, e'.1 < e.1 := fun e' he' => hbelow e' he' e (.head _)
  cases hreceipt : receiptOf e with
  | none =>
      have hheld : heldReceipts (events ++ [e]) = heldReceipts events :=
        heldReceipts_append_none hreceipt
      have hreceipts : receipts (events ++ [e]) = receipts events := by
        rw [receipts_append, hreceipt]
        exact List.append_nil _
      rw [applyRecord, upsert_of_none hreceipt]
      refine .some ⟨h.stored.insert hlt, ?_, ?_, ?_, ?_, fun row hrow => ?_, h.fit⟩
      · rw [SessionBilled, hheld]
        exact h.session
      · intro key
        rw [hheld]
        exact h.models key
      · intro day row hrow
        rw [hheld]
        exact h.daily day row hrow
      · intro day row hrow
        rw [hreceipts]
        exact h.reached day row hrow
      · obtain ⟨e', he', hoffset⟩ := h.offset row hrow
        exact ⟨e', List.mem_append_left _ he', hoffset⟩
  | some new =>
      have hdays := days_le_of_receipt htimes hreceipt
      rw [applyRecord, upsert_of_receipt h hlt hreceipt]
      exact (ends_applyResponse h hlt horder hdays hkeys hmodels hreceipt).map
        fun tables htables => htables

/-! ## Every run -/

/-- The records one after the other; `none` when a statement fails. -/
def applyAll (jsonbText : Json → String) : UsageState → List SourceEvent → Option UsageState
  | s, [] => some s
  | s, e :: events => (applyRecord jsonbText .claudeCode s e).bind fun s =>
      applyAll jsonbText s events

/-- The rows are the sums the receipts ask for. -/
structure ChargedOnce (events : List SourceEvent) (db : UsageTables) : Prop where
  session : SessionBilled events db
  models : ModelsBilled events db
  daily : DailyBilled db

theorem ChargesFit.of_append {more : List SourceEvent} (h : ChargesFit (events ++ more)) :
    ChargesFit events := by
  have hsub : (receipts events).Sublist (receipts (events ++ more)) := by
    rw [receipts, receipts, List.filterMap_append]
    exact List.sublist_append_left _ _
  have hcounted : Counted (receipts events) := counted_of_sublist hsub h
  have hsum := (hcounted.total fun _ => True).2
  rwa [sumWhere_true] at hsum

theorem ends_applyAll {before after : List SourceEvent} (h : Billed before s)
    (horder : ByteOrder (before ++ after))
    (htimes : (before ++ after).Pairwise fun e e' => e.2.timestamp ≤ e'.2.timestamp)
    (hkeys : KeysDistinct jsonbText (before ++ after))
    (hmodels : ∀ e ∈ before ++ after, ModelIsText e.2.payload) :
    Ends (ChargesFit (before ++ after)) (applyAll jsonbText s after)
      (Billed (before ++ after)) := by
  induction after generalizing before s with
  | nil =>
      rw [List.append_nil]
      exact .some h
  | cons e after ih =>
      have hsplit : before ++ e :: after = before ++ [e] ++ after := by simp
      rw [hsplit] at horder htimes hkeys hmodels ⊢
      have hkeys' : KeysDistinct jsonbText (before ++ [e]) := fun e he e' he' =>
        hkeys e (List.mem_append_left _ he) e' (List.mem_append_left _ he')
      refine
        ((ends_applyRecord h (List.pairwise_append.mp horder).1 (List.pairwise_append.mp htimes).1
        hkeys' fun e he => hmodels e (List.mem_append_left _ he)).mono ChargesFit.of_append
          fun _ => id).bind ?_
      intro s' hs'
      exact ih hs' horder htimes hkeys hmodels

/-- **Claude usage is charged once, with the latest receipt.** For every sequence of records in
byte order with nondecreasing timestamps whose models are strings and whose keys tell them
apart: whenever the records are applied, the rows are the sums of the held receipts; and they are
applied if the charges fit an `i64`. -/
theorem claude_charged_once (jsonbText : Json → String) (events : List SourceEvent)
    (horder : ByteOrder events)
    (htimes : events.Pairwise fun e e' => e.2.timestamp ≤ e'.2.timestamp)
    (hkeys : KeysDistinct jsonbText events) (hmodels : ∀ e ∈ events, ModelIsText e.2.payload) :
    (∀ s, applyAll jsonbText .empty events = some s → ChargedOnce events s.tables) ∧
      (ChargesFit events → ∃ s, applyAll jsonbText .empty events = some s) := by
  have hrun : Ends (ChargesFit events) (applyAll jsonbText .empty events) (Billed events) :=
    ends_applyAll billed_empty horder htimes hkeys hmodels
  refine ⟨fun s hs => ?_, hrun.succeeds⟩
  have hbilled := hrun.post s hs
  exact ⟨hbilled.session, hbilled.models, hbilled.dailyBilled⟩

/-! ## A message id that is a byte offset -/

/-- An assistant record with ten input tokens. -/
def receiptRecord (byteOffset : Int) (timestamp : Timestamp) (id : List (String × Json))
    (model : String)
    (output : Int) : SourceEvent :=
  (byteOffset, ⟨timestamp, .obj
    [("type", .str "assistant"),
      ("message", .obj (id ++
        [("model", .str model),
          ("usage", .obj [("input_tokens", .int 10), ("output_tokens", .int output)])]))], none⟩)

/-- A response whose correction comes the next day and is smaller, and a receipt without id. -/
def correctedEvents : List SourceEvent :=
  [receiptRecord 0 0 [("id", .str "m1")] "opus" 5, receiptRecord 10 0 [] "opus" 1,
    receiptRecord 20 86400000000 [("id", .str "m1")] "opus" 3]

/-- A receipt without id at offset 5, and a message called "5" that moves to another model. -/
def sharedKeyEvents : List SourceEvent :=
  [receiptRecord 5 0 [] "opus" 1, receiptRecord 10 0 [("id", .str "5")] "sonnet" 1,
    receiptRecord 20 0 [("id", .str "5")] "haiku" 1]

theorem correctedEvents_charged :
    ByteOrder correctedEvents ∧ ∃ s, applyAll (fun _ => "") .empty correctedEvents = some s ∧
      ChargedOnce correctedEvents s.tables := by
  have horder : ByteOrder correctedEvents := by
    unfold ByteOrder
    decide
  have hkeys : KeysDistinct (fun _ => "") correctedEvents := by
    unfold KeysDistinct
    decide
  have hmodels : ∀ e ∈ correctedEvents, ModelIsText e.2.payload := by
    simp only [correctedEvents, List.forall_mem_cons, List.not_mem_nil, false_implies, implies_true,
      and_true]
    exact ⟨fun model h => .inr ⟨_, Option.some.inj h.symm⟩,
      fun model h => .inr ⟨_, Option.some.inj h.symm⟩,
      fun model h => .inr ⟨_, Option.some.inj h.symm⟩⟩
  have htimes : correctedEvents.Pairwise fun e e' => e.2.timestamp ≤ e'.2.timestamp := by decide
  obtain ⟨hcharged, hsucceeds⟩ :=
    claude_charged_once (fun _ => "") correctedEvents horder htimes hkeys hmodels
  obtain ⟨s, hs⟩ := hsucceeds (by unfold ChargesFit; decide)
  exact ⟨horder, s, hs, hcharged s hs⟩

/-- The deletion drops the bucket of the receipt at offset 5, which is held. -/
theorem sharedKey_drops_bucket :
    ByteOrder sharedKeyEvents ∧
      sharedKeyEvents.Pairwise (fun e e' => e.2.timestamp ≤ e'.2.timestamp) ∧
      ∃ s, applyAll (fun _ => "") .empty sharedKeyEvents = some s ∧
        ¬ ChargedOnce sharedKeyEvents s.tables := by
  refine ⟨by unfold ByteOrder; decide, by decide, ?_⟩
  obtain ⟨s, hs⟩ : ∃ s, applyAll (fun _ => "") .empty sharedKeyEvents = some s :=
    Option.isSome_iff_exists.mp (by decide +kernel)
  have hdropped : (applyAll (fun _ => "") .empty sharedKeyEvents).map
      (fun s => (s.tables.models[((0, "opus") : Day × String)]?).isNone) = some true := by
        decide +kernel
  refine ⟨s, hs, fun h => ?_⟩
  rw [hs, Option.map_some, Option.some.injEq, Option.isNone_iff_eq_none] at hdropped
  have hmodels := h.models (0, "opus")
  rw [hdropped, if_pos (by decide)] at hmodels
  cases hmodels

end Sulion.Usage.Claude
