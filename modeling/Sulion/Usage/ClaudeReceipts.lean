import Sulion.Lib.Buckets
import Sulion.Usage.Upsert

set_option autoImplicit false

/-! # Claude receipts

A receipt is an assistant record with a usage object. `heldReceipts` are the receipts that
count: the latest of each message, and every one without a message id. A new receipt leaves
the held ones but the one of its message, which it replaces (`heldReceipts_append`).

The queries of `apply_response` find records by SQL keys, `payload #>> '{message,id}'` and
`COALESCE(message id, byte offset)`. As long as these keys tell records apart (`KeysDistinct`),
the record found is the receipt replaced (`priorReceipt_eq`), and the receipts the deletion of
empty buckets looks at are the held ones (`any_distinctReceipts`).
-/

namespace Sulion.Usage.Claude

open Rust Ingest

/-! ## Receipts -/

/-- A record that is charged. -/
structure Receipt where
  byteOffset : Int
  timestamp : Timestamp
  usage : UsageUpdate

/-- The UTC day and model a receipt is charged to. -/
def Receipt.bucket (r : Receipt) : Day × String :=
  (r.timestamp.dateNaive, r.usage.model.getD unknownModel)

def receiptOf (e : SourceEvent) : Option Receipt :=
  (extractClaudeUsage e.2.payload).map fun usage => ⟨e.1, e.2.timestamp, usage⟩

def receipts (events : List SourceEvent) : List Receipt := events.filterMap receiptOf

/-- No receipt of the same message comes later. -/
def Receipt.Latest (all : List Receipt) (r : Receipt) : Prop :=
  r.usage.messageId.isSome → ∀ later ∈ all, later.usage.messageId = r.usage.messageId →
    later.byteOffset ≤ r.byteOffset

instance (all : List Receipt) (r : Receipt) : Decidable (r.Latest all) :=
  inferInstanceAs (Decidable (_ → _))

/-- The latest receipt of each message, and all receipts without a message id. -/
def latest (all : List Receipt) : List Receipt := all.filter fun r => decide (r.Latest all)

def heldReceipts (events : List SourceEvent) : List Receipt := latest (receipts events)

/-! ## Keys that tell records apart -/

/-- Records without a string id share their key with no other record. -/
def KeysDistinct (jsonbText : Json → String) (events : List SourceEvent) : Prop :=
  ∀ e ∈ events, ∀ e' ∈ events, isReceipt e.2 → isReceipt e'.2 → e.1 ≠ e'.1 →
    receiptKey jsonbText e.1 e.2 = receiptKey jsonbText e'.1 e'.2 →
      (e.2.payload.stringAt ["message", "id"]).isSome

/-- The model of a record is a string, if it has one. -/
def ModelIsText (value : Json) : Prop :=
  ∀ model, value.at? ["message", "model"] = some model → model = .null ∨ ∃ s, model = .str s

variable {jsonbText : Json → String} {events : List SourceEvent} {s s' : UsageState}
  {e : SourceEvent} {all : List Receipt} {r new : Receipt}

/-! ## Receipts of a record -/

theorem at?_pair (value : Json) (key inner : String) :
    value.at? [key, inner] = (value.get key).bind (·.get inner) := by
  simp [Json.at?]

theorem isReceipt_iff {row : EventRow} :
    isReceipt row = true ↔ (extractClaudeUsage row.payload).isSome := by
  have hkind : storedEventKind .claudeCode row.payload = "assistant" ↔
      row.payload.stringAt ["type"] = some "assistant" := by
    cases htype : (row.payload.get "type").bind Json.asStr with
    | none =>
        have : row.payload.stringAt ["type"] = none := by
          cases hget : row.payload.get "type" <;> simp_all [Json.stringAt, Json.at?]
        simp [storedEventKind, htype, this]
    | some kind =>
        have : row.payload.stringAt ["type"] = some kind := by
          cases hget : row.payload.get "type" <;> simp_all [Json.stringAt, Json.at?]
        simp [storedEventKind, htype, this]
  have hobject :
      ∀ o : Option Json, (o.any Json.isObject = true ↔ (o.filter Json.isObject).isSome) := by
    rintro (_ | json)
    · simp
    · cases h : json.isObject <;> simp [h]
  rw [isReceipt, Bool.and_eq_true, beq_iff_eq, hkind, at?_pair, hobject]
  unfold extractClaudeUsage claudeUsageObject
  rw [Option.isSome_map]
  by_cases htype : row.payload.stringAt ["type"] = some "assistant"
  · simp [htype]
  · simp [htype]

theorem messageId_of_extract {value : Json} {usage : UsageUpdate}
    (h : extractClaudeUsage value = some usage) :
    usage.messageId = value.stringAt ["message", "id"] := by
  obtain ⟨object, _, rfl⟩ := Option.map_eq_some_iff.mp h
  simp only [Json.stringAt, at?_pair]

theorem model_of_extract {value : Json} {usage : UsageUpdate}
    (h : extractClaudeUsage value = some usage) :
    usage.model = value.stringAt ["message", "model"] := by
  obtain ⟨object, _, rfl⟩ := Option.map_eq_some_iff.mp h
  simp only [Json.stringAt, at?_pair]

theorem textAt_of_stringAt {value : Json} {path : List String} {text : String}
    (h : value.stringAt path = some text) : value.textAt jsonbText path = some text := by
  obtain ⟨inner, hinner, hstr⟩ := Option.bind_eq_some_iff.mp h
  cases inner with
  | str s =>
      cases hstr
      simp [Json.textAt, hinner]
  | _ => cases hstr

theorem textAt_model {value : Json} (h : ModelIsText value) :
    value.textAt jsonbText ["message", "model"] = value.stringAt ["message", "model"] := by
  cases hinner : value.at? ["message", "model"] with
  | none => simp [Json.textAt, Json.stringAt, hinner]
  | some inner =>
      rcases h inner hinner with rfl | ⟨s, rfl⟩
      · simp [Json.textAt, Json.stringAt, hinner, Json.asStr]
      · simp [Json.textAt, Json.stringAt, hinner, Json.asStr]

theorem receiptOf_eq_some_iff :
    receiptOf e = some r ↔ extractClaudeUsage e.2.payload = some r.usage ∧
      r.byteOffset = e.1 ∧ r.timestamp = e.2.timestamp := by
  rw [receiptOf, Option.map_eq_some_iff]
  constructor
  · rintro ⟨usage, husage, rfl⟩
    exact ⟨husage, rfl, rfl⟩
  · rintro ⟨husage, hoffset, htime⟩
    refine ⟨r.usage, husage, ?_⟩
    cases r
    cases hoffset
    cases htime
    rfl

theorem mem_receipts_iff : r ∈ receipts events ↔ ∃ e ∈ events, receiptOf e = some r := by
  rw [receipts, List.mem_filterMap]

theorem receipts_append (events : List SourceEvent) (e : SourceEvent) :
    receipts (events ++ [e]) = receipts events ++ (receiptOf e).toList := by
  rw [receipts, List.filterMap_append]
  cases h : receiptOf e <;> simp [receipts, h]

/-! ## The receipts held after one more -/

/-- `new` is a later receipt of the same message. -/
def supersedes (new r : Receipt) : Bool :=
  new.usage.messageId.isSome && r.usage.messageId == new.usage.messageId

theorem latest_append (hlt : ∀ r ∈ all, r.byteOffset < new.byteOffset) :
    latest (all ++ [new]) = (latest all).filter (fun r => !supersedes new r) ++ [new] := by
  have hnew : new.Latest (all ++ [new]) := by
    intro _ later hlater _
    rcases List.mem_append.mp hlater with h | h
    · exact (hlt later h).le
    · exact (List.mem_singleton.mp h) ▸ le_refl _
  have hold : ∀ r ∈ all, (r.Latest (all ++ [new]) ↔ r.Latest all ∧ supersedes new r = false) := by
    intro r hr
    constructor
    · intro h
      refine ⟨fun hs later hlater => h hs later (by simp [hlater]), ?_⟩
      by_contra hsup
      simp only [supersedes, Bool.not_eq_false, Bool.and_eq_true, beq_iff_eq] at hsup
      have := h (hsup.2 ▸ hsup.1) new (by simp) hsup.2.symm
      have := hlt r hr
      omega
    · rintro ⟨h, hsup⟩ hs later hlater hid
      rcases List.mem_append.mp hlater with hmem | hmem
      · exact h hs later hmem hid
      · rw [List.mem_singleton.mp hmem] at hid
        simp [supersedes, hid, hs] at hsup
  have hsingle : [new].filter (fun r => decide (r.Latest (all ++ [new]))) = [new] := by simp [hnew]
  rw [latest, List.filter_append, hsingle, latest, List.filter_filter]
  congr 1
  refine List.filter_congr fun r hr => ?_
  simp [hold r hr, and_comm]

theorem heldReceipts_append (hreceipt : receiptOf e = some new)
    (hlt : ∀ r ∈ receipts events, r.byteOffset < new.byteOffset) :
    heldReceipts (events ++ [e]) =
      (heldReceipts events).filter (fun r => !supersedes new r) ++ [new] := by
  rw [heldReceipts, receipts_append, hreceipt]
  exact latest_append hlt

theorem heldReceipts_append_none (hreceipt : receiptOf e = none) :
    heldReceipts (events ++ [e]) = heldReceipts events := by
  rw [heldReceipts, receipts_append, hreceipt]
  simp [heldReceipts]

theorem mem_heldReceipts_iff :
    r ∈ heldReceipts events ↔ r ∈ receipts events ∧ r.Latest (receipts events) := by
  simp [heldReceipts, latest]

/-- The receipts come in byte order. -/
theorem receipts_order (horder : ByteOrder events) :
    (receipts events).Pairwise fun r r' => r.byteOffset < r'.byteOffset := by
  refine List.Pairwise.filterMap receiptOf (fun e e' hlt r hr r' hr' => ?_) horder
  rw [(receiptOf_eq_some_iff.mp hr).2.1, (receiptOf_eq_some_iff.mp hr').2.1]
  exact hlt

/-- At most one held receipt is superseded. -/
theorem filter_supersedes (horder : ByteOrder events) {prior : Receipt}
    (hprior : prior ∈ heldReceipts events) (hsup : supersedes new prior = true) :
    (heldReceipts events).filter (supersedes new) = [prior] := by
  have hpair := receipts_order horder
  have hnodup : (heldReceipts events).Nodup :=
    (hpair.imp fun h heq => by simp [heq] at h).filter _
  have hall : ∀ r ∈ (heldReceipts events).filter (supersedes new), r = prior := by
    intro r hr
    rw [List.mem_filter, mem_heldReceipts_iff] at hr
    obtain ⟨⟨hmem, hlatest⟩, hr⟩ := hr
    obtain ⟨hpmem, hplatest⟩ := mem_heldReceipts_iff.mp hprior
    simp only [supersedes, Bool.and_eq_true, beq_iff_eq] at hr hsup
    have h1 := hlatest (hr.2 ▸ hr.1) prior hpmem (hsup.2.trans hr.2.symm)
    have h2 := hplatest (hsup.2 ▸ hsup.1) r hmem (hr.2.trans hsup.2.symm)
    by_contra hne
    have h := List.pairwise_iff_getElem.mp hpair
    obtain ⟨i, hi, rfl⟩ := List.mem_iff_getElem.mp hmem
    obtain ⟨j, hj, rfl⟩ := List.mem_iff_getElem.mp hpmem
    rcases Nat.lt_trichotomy i j with hij | rfl | hij
    · have := h i j hi hj hij
      omega
    · exact hne rfl
    · have := h j i hj hi hij
      omega
  have hfnodup := hnodup.filter (supersedes new)
  have hmem : prior ∈ (heldReceipts events).filter (supersedes new) :=
    List.mem_filter.mpr ⟨hprior, hsup⟩
  cases hlist : (heldReceipts events).filter (supersedes new) with
  | nil =>
      rw [hlist] at hmem
      cases hmem
  | cons first rest =>
      rw [hlist] at hall hfnodup
      obtain rfl := hall first (.head _)
      cases rest with
      | nil => rfl
      | cons second rest =>
          have := hall second (by simp)
          simp [this] at hfnodup

/-! ## The records the queries find -/

/-- The events table holds the records ingested so far. -/
def Stored (s : UsageState) (events : List SourceEvent) : Prop :=
  ∀ (k : Int) (row : EventRow), s.events[k]? = some row ↔ (k, row) ∈ events

theorem Stored.insert (h : Stored s events)
    (hlt : ∀ e' ∈ events, e'.1 < e.1) {tables : UsageTables} :
    Stored ⟨s.events.insert e.1 e.2, tables⟩ (events ++ [e]) := by
  intro k row
  simp only [Table.lookup_insert, List.mem_append, List.mem_singleton]
  by_cases hk : e.1 = k
  · subst hk
    have hfresh : (e.1, row) ∉ events := fun hmem => absurd (hlt _ hmem) (lt_irrefl _)
    constructor
    · intro h
      rw [if_pos rfl] at h
      exact .inr (Option.some.inj h ▸ rfl)
    · rintro (hmem | heq)
      · exact absurd hmem hfresh
      · rw [if_pos rfl, ← heq]
  · rw [if_neg hk, h k row]
    refine ⟨.inl, fun hmem => hmem.resolve_right ?_⟩
    rintro rfl
    exact hk rfl

theorem isReceipt_of_extract {row : EventRow} {usage : UsageUpdate}
    (h : extractClaudeUsage row.payload = some usage) : isReceipt row = true := by
  rw [isReceipt_iff, h]
  rfl

/-- `prior` is the held receipt of the message of `new`, if there is one. -/
def Replaces (events : List SourceEvent) (new : Receipt) (prior : Option Receipt) : Prop :=
  (heldReceipts events).filter (supersedes new) = prior.toList

/-- `apply_response` finds the receipt that is replaced. -/
theorem priorReceipt_eq (hstored : Stored s events) (hlt : ∀ e' ∈ events, e'.1 < e.1)
    (horder : ByteOrder events)
    (hkeys : KeysDistinct jsonbText (events ++ [e])) (hnew : receiptOf e = some new) :
    ∃ prior, Replaces events new prior ∧
      (priorReceipt jsonbText (s.events.insert e.1 e.2) e.1 new.usage.messageId).map
        (fun row => (row.timestamp, extractClaudeUsage row.payload)) =
          prior.map fun p => (p.timestamp, some p.usage) := by
  have hlookup : ∀ (k : Int) (row : EventRow), k < e.1 →
      ((s.events.insert e.1 e.2)[k]? = some row ↔ (k, row) ∈ events) := by
    intro k row hk
    rw [Table.lookup_insert_ne _ _ (by omega), hstored]
  have hextractNew := (receiptOf_eq_some_iff.mp hnew).1
  cases hid : new.usage.messageId with
  | none =>
      refine ⟨none, ?_, rfl⟩
      simp [Replaces, supersedes, hid]
  | some id =>
      have hnewId : e.2.payload.stringAt ["message", "id"] = some id := by
        rw [← messageId_of_extract hextractNew, hid]
      have htextId : ∀ {row : EventRow} {usage : UsageUpdate},
          extractClaudeUsage row.payload = some usage → usage.messageId = some id →
            row.payload.textAt jsonbText ["message", "id"] = some id := fun hextract husage =>
        textAt_of_stringAt ((messageId_of_extract hextract).symm.trans husage)
      cases hfound : lastEventBefore (s.events.insert e.1 e.2) e.1 fun row =>
          isReceipt row && row.payload.textAt jsonbText ["message", "id"] == some id with
      | none =>
          refine ⟨none, List.filter_eq_nil_iff.mpr fun prior hprior hsup => ?_,
            by simp [priorReceipt, hfound]⟩
          rw [supersedes, Bool.and_eq_true, beq_iff_eq, hid] at hsup
          obtain ⟨e', he', hr⟩ := mem_receipts_iff.mp (mem_heldReceipts_iff.mp hprior).1
          have hextract := (receiptOf_eq_some_iff.mp hr).1
          have hno := lastEventBefore_eq_none_iff.mp hfound e'.1 e'.2
            ((hlookup _ _ (hlt e' he')).mpr he') (hlt e' he')
          simp [isReceipt_of_extract hextract, htextId hextract hsup.2] at hno
      | some found =>
          obtain ⟨k, row⟩ := found
          obtain ⟨hrow, hklt, hp, hlast⟩ := lastEventBefore_eq_some_iff.mp hfound
          rw [Bool.and_eq_true, beq_iff_eq] at hp
          obtain ⟨hreceipt, htext⟩ := hp
          have hmem := (hlookup k row hklt).mp hrow
          -- The record found has the id as a string, or it would share the key.
          obtain ⟨text, hstring⟩ : ∃ text, row.payload.stringAt ["message", "id"] = some text := by
            refine Option.isSome_iff_exists.mp (hkeys (k, row) (by simp [hmem]) e (by simp) hreceipt
              (isReceipt_of_extract hextractNew) hklt.ne ?_)
            rw [receiptKey, receiptKey, htext, textAt_of_stringAt hnewId]
            rfl
          have hsame : row.payload.stringAt ["message", "id"] = some id := by
            rw [textAt_of_stringAt hstring] at htext
            rw [hstring, htext]
          obtain ⟨usage, husage⟩ := Option.isSome_iff_exists.mp (isReceipt_iff.mp hreceipt)
          have husageId : usage.messageId = some id := (messageId_of_extract husage).trans hsame
          refine ⟨some ⟨k, row.timestamp, usage⟩, filter_supersedes horder ?_ ?_, ?_⟩
          · refine mem_heldReceipts_iff.mpr ⟨mem_receipts_iff.mpr ⟨(k, row), hmem,
              receiptOf_eq_some_iff.mpr ⟨husage, rfl, rfl⟩⟩, fun _ later hlater hlaterId => ?_⟩
            obtain ⟨e', he', hr⟩ := mem_receipts_iff.mp hlater
            obtain ⟨hextract, hoffset, _⟩ := receiptOf_eq_some_iff.mp hr
            rw [hoffset]
            refine hlast e'.1 e'.2 ((hlookup _ _ (hlt e' he')).mpr he') (hlt e' he') ?_
            simp [isReceipt_of_extract hextract, htextId hextract (hlaterId.trans husageId)]
          · simp [supersedes, hid, husageId]
          · simp [priorReceipt, hfound, husage]

/-- With distinct keys, a later receipt of the key is one of the message. -/
theorem receiptKey_eq_iff (hkeys : KeysDistinct jsonbText events) {e' : SourceEvent}
    (he : e ∈ events) (he' : e' ∈ events) (hne : e.1 ≠ e'.1) {r' : Receipt}
    (hr : receiptOf e = some r) (hr' : receiptOf e' = some r') :
    receiptKey jsonbText e.1 e.2 = receiptKey jsonbText e'.1 e'.2 ↔
      r.usage.messageId.isSome ∧ r'.usage.messageId = r.usage.messageId := by
  have hextract := (receiptOf_eq_some_iff.mp hr).1
  have hextract' := (receiptOf_eq_some_iff.mp hr').1
  rw [messageId_of_extract hextract, messageId_of_extract hextract']
  constructor
  · intro h
    have hsome := hkeys e he e' he' (isReceipt_of_extract hextract) (isReceipt_of_extract hextract')
      hne h
    obtain ⟨text, htext⟩ := Option.isSome_iff_exists.mp hsome
    obtain ⟨text', htext'⟩ := Option.isSome_iff_exists.mp (hkeys e' he' e he
      (isReceipt_of_extract hextract') (isReceipt_of_extract hextract) hne.symm h.symm)
    rw [receiptKey, receiptKey, textAt_of_stringAt htext, textAt_of_stringAt htext'] at h
    refine ⟨hsome, ?_⟩
    rw [htext, htext']
    exact congrArg some h.symm
  · rintro ⟨hsome, heq⟩
    obtain ⟨text, htext⟩ := Option.isSome_iff_exists.mp hsome
    rw [receiptKey, receiptKey, textAt_of_stringAt htext, textAt_of_stringAt (heq.trans htext)]
    rfl

/-- **The receipts the deletion looks at are the held ones**, bucket by bucket. -/
theorem any_distinctReceipts (hstored : Stored s events)
    (hkeys : KeysDistinct jsonbText events) (hmodels : ∀ e ∈ events, ModelIsText e.2.payload)
    (key : Day × String) :
    ((distinctReceipts jsonbText s.events).any fun row =>
      receiptBucket jsonbText row == key) = true ↔
      ∃ r ∈ heldReceipts events, r.bucket = key := by
  have hbucket : ∀ {e r}, e ∈ events → receiptOf e = some r →
      receiptBucket jsonbText e.2 = r.bucket := by
    intro e r he hr
    obtain ⟨hextract, _, htime⟩ := receiptOf_eq_some_iff.mp hr
    rw [receiptBucket, Receipt.bucket, textAt_model (hmodels e he), htime,
      model_of_extract hextract]
  simp only [List.any_eq_true, beq_iff_eq, distinctReceipts, Table.mem_rows_distinctOn, hstored _ _,
    compare_lt_iff_lt]
  constructor
  · rintro ⟨row, ⟨k, hmem, hreceipt, hlast⟩, rfl⟩
    obtain ⟨usage, husage⟩ := Option.isSome_iff_exists.mp (isReceipt_iff.mp hreceipt)
    have hr : receiptOf (k, row) = some ⟨k, row.timestamp, usage⟩ :=
      receiptOf_eq_some_iff.mpr ⟨husage, rfl, rfl⟩
    refine ⟨_, mem_heldReceipts_iff.mpr ⟨mem_receipts_iff.mpr ⟨_, hmem, hr⟩, ?_⟩,
      (hbucket hmem hr).symm⟩
    intro hsome later hlater hid
    by_contra hlt
    obtain ⟨e', he', hr'⟩ := mem_receipts_iff.mp hlater
    obtain ⟨hextract', hoffset, _⟩ := receiptOf_eq_some_iff.mp hr'
    rw [hoffset, not_le] at hlt
    exact hlast e'.1 e'.2 he' (isReceipt_of_extract hextract') hlt
      ((receiptKey_eq_iff hkeys hmem he' hlt.ne hr hr').mpr ⟨hsome, hid⟩).symm
  · rintro ⟨r, hr, rfl⟩
    obtain ⟨hmem, hlatest⟩ := mem_heldReceipts_iff.mp hr
    obtain ⟨e, he, hof⟩ := mem_receipts_iff.mp hmem
    obtain ⟨hextract, hoffset, _⟩ := receiptOf_eq_some_iff.mp hof
    refine ⟨e.2, ⟨e.1, he, isReceipt_of_extract hextract, fun k' row' hk' hreceipt' hlt heq => ?_⟩,
      hbucket he hof⟩
    obtain ⟨usage', husage'⟩ := Option.isSome_iff_exists.mp (isReceipt_iff.mp hreceipt')
    have hof' : receiptOf (k', row') = some ⟨k', row'.timestamp, usage'⟩ :=
      receiptOf_eq_some_iff.mpr ⟨husage', rfl, rfl⟩
    obtain ⟨hsome, hid⟩ := (receiptKey_eq_iff hkeys he hk' hlt.ne hof hof').mp heq.symm
    have := hlatest hsome _ (mem_receipts_iff.mpr ⟨_, hk', hof'⟩) hid
    simp only at this
    omega

/-! ## Sums over the held receipts -/

/-- The held receipts a new one leaves. -/
def remaining (events : List SourceEvent) (new : Receipt) : List Receipt :=
  (heldReceipts events).filter fun r => !supersedes new r

theorem remaining_subset {q : Receipt} (h : q ∈ remaining events new) : q ∈ heldReceipts events :=
  (List.mem_filter.mp h).1

/-- A sum over the held receipts is one over the replaced and the remaining ones. -/
theorem Replaces.sumWhere_held {M : Type*} [AddCommMonoid M] {prior : Option Receipt}
    (h : Replaces events new prior) (P : Receipt → Prop) [DecidablePred P] (value : Receipt → M) :
    sumWhere P value (heldReceipts events) =
      sumWhere P value prior.toList + sumWhere P value (remaining events new) := by
  rw [← sumWhere_filter_add (supersedes new), h]
  rfl

theorem Replaces.mem {prior : Option Receipt} (h : Replaces events new prior) {p : Receipt}
    (hp : p ∈ prior) : p ∈ heldReceipts events ∧ supersedes new p = true := by
  have hmem : p ∈ (heldReceipts events).filter (supersedes new) := by
    rw [h]
    exact Option.mem_toList.mpr hp
  exact List.mem_filter.mp hmem

/-- A held receipt remains, or it is the one replaced. -/
theorem Replaces.cases {prior : Option Receipt} (h : Replaces events new prior) {q : Receipt}
    (hq : q ∈ heldReceipts events) : q ∈ remaining events new ∨ q ∈ prior := by
  cases hsup : supersedes new q with
  | true =>
      refine .inr (Option.mem_toList.mp ?_)
      rw [← h]
      exact List.mem_filter.mpr ⟨hq, hsup⟩
  | false => exact .inl (List.mem_filter.mpr ⟨hq, by simp [hsup]⟩)

/-! ## Sums that fit -/

/-- All charges together fit an `i64`. -/
def ChargesFit (events : List SourceEvent) : Prop :=
  ((receipts events).map (·.usage.spend.tokens.sum)).sum ≤ i64Max

/-- The sums over these receipts fit their columns. -/
structure Counted (items : List Receipt) : Prop where
  spend : ∀ (P : Receipt → Prop) [DecidablePred P] (column : SpendColumn),
    IsCount (sumWhere P (·.usage.spend column) items)
  total : ∀ (P : Receipt → Prop) [DecidablePred P],
    IsCount (sumWhere P (·.usage.spend.tokens.sum) items)

theorem saturatingAdd_le {a b : Int} (ha : 0 ≤ a) (hb : 0 ≤ b) : saturatingAdd a b ≤ a + b := by
  unfold saturatingAdd i64Clamp i64Min i64Max
  omega

theorem isCount_extractClaudeUsage {value : Json} {usage : UsageUpdate}
    (h : extractClaudeUsage value = some usage) (column : SpendColumn) :
      IsCount (usage.spend column) :=
  isCount_extractUsage (show extractUsage .claudeCode value = some usage from h) column

/-- No counter of a receipt is more than its token columns together. -/
theorem spend_le_sum {value : Json} {usage : UsageUpdate}
    (h : extractClaudeUsage value = some usage)
    (column : SpendColumn) : usage.spend column ≤ usage.spend.tokens.sum := by
  have hcount := fun column => (isCount_extractClaudeUsage h column).1
  have htokens : usage.spend.tokens.sum = usage.spend (.token .inputTokens)
      + usage.spend (.token .cachedInputTokens) + usage.spend (.token .cacheWriteInputTokens)
      + usage.spend (.token .cacheWrite1hInputTokens) + usage.spend (.token .outputTokens) := rfl
  have hinput := hcount (.token .inputTokens)
  have hcached := hcount (.token .cachedInputTokens)
  have hwrite := hcount (.token .cacheWriteInputTokens)
  have hhour := hcount (.token .cacheWrite1hInputTokens)
  have houtput := hcount (.token .outputTokens)
  rw [htokens]
  cases column with
  | token column => cases column <;> omega
  | reasoningOutputTokens =>
      obtain ⟨object, _, rfl⟩ := Option.map_eq_some_iff.mp h
      change (0 : Int) ≤ _
      omega
  | totalTokens =>
      have htotal : usage.spend .totalTokens = saturatingAdd (saturatingAdd (saturatingAdd
          (saturatingAdd (usage.spend (.token .inputTokens))
            (usage.spend (.token .cacheWriteInputTokens)))
          (usage.spend (.token .cacheWrite1hInputTokens)))
            (usage.spend (.token .cachedInputTokens)))
          (usage.spend (.token .outputTokens)) := by
        obtain ⟨object, _, rfl⟩ := Option.map_eq_some_iff.mp h
        rfl
      have hnonneg : ∀ {a b : Int}, 0 ≤ a → 0 ≤ b → 0 ≤ saturatingAdd a b := fun ha hb =>
        i64Clamp_nonneg (add_nonneg ha hb)
      have h1 := saturatingAdd_le hinput hwrite
      have h2 := saturatingAdd_le (hnonneg hinput hwrite) hhour
      have h3 := saturatingAdd_le (hnonneg (hnonneg hinput hwrite) hhour) hcached
      have h4 := saturatingAdd_le (hnonneg (hnonneg (hnonneg hinput hwrite) hhour) hcached) houtput
      rw [htotal]
      omega

theorem counted_of_sublist {items : List Receipt} (hsub : items.Sublist (receipts events))
    (hfit : ChargesFit events) : Counted items := by
  have hle : ∀ r ∈ receipts events, ∀ column, 0 ≤ r.usage.spend column ∧
      r.usage.spend column ≤ r.usage.spend.tokens.sum := by
    intro r hr column
    obtain ⟨e, _, hof⟩ := mem_receipts_iff.mp hr
    have hextract := (receiptOf_eq_some_iff.mp hof).1
    exact ⟨(isCount_extractClaudeUsage hextract column).1, spend_le_sum hextract column⟩
  constructor
  · intro P _ column
    have hfilter : (items.filter fun r => decide (P r)).Sublist (receipts events) :=
      List.filter_sublist.trans hsub
    obtain ⟨h0, h1⟩ := sum_le_of_sublist hfilter fun r hr => hle r hr column
    exact ⟨h0, h1.trans hfit⟩
  · intro P _
    have hfilter : (items.filter fun r => decide (P r)).Sublist (receipts events) :=
      List.filter_sublist.trans hsub
    have hsum : ∀ r ∈ receipts events, 0 ≤ r.usage.spend.tokens.sum ∧
        r.usage.spend.tokens.sum ≤ r.usage.spend.tokens.sum := fun r hr =>
      ⟨(hle r hr .totalTokens).1.trans (hle r hr .totalTokens).2, le_refl _⟩
    obtain ⟨h0, h1⟩ := sum_le_of_sublist hfilter hsum
    exact ⟨h0, h1.trans hfit⟩

/-- Column by column. -/
theorem sumWhere_spend (P : Receipt → Prop) [DecidablePred P] (items : List Receipt)
    (column : SpendColumn) :
    sumWhere P (·.usage.spend) items column = sumWhere P (·.usage.spend column) items :=
  map_sumWhere (Pi.evalAddMonoidHom (fun _ : SpendColumn => Int) column)

/-- The token columns of a counter, as a homomorphism. -/
def tokensHom : Spend →+ Tokens where
  toFun := Spend.tokens
  map_zero' := rfl
  map_add' _ _ := rfl

theorem sumWhere_tokens (P : Receipt → Prop) [DecidablePred P] (items : List Receipt) :
    (sumWhere P (·.usage.spend) items).tokens = sumWhere P (·.usage.spend.tokens) items :=
  map_sumWhere tokensHom

/-- The sum of the token columns, as a homomorphism. -/
def sumHom : Tokens →+ Int where
  toFun := Tokens.sum
  map_zero' := Tokens.sum_zero
  map_add' := Tokens.sum_add

theorem Counted.tokens {items : List Receipt} (h : Counted items) (P : Receipt → Prop)
    [DecidablePred P] : Tokens.Fit (sumWhere P (·.usage.spend.tokens) items) := by
  rw [Tokens.fit_iff, ← sumWhere_tokens]
  intro column
  rw [Spend.tokens_apply, sumWhere_spend]
  exact h.spend P (.token column)

theorem Counted.sum {items : List Receipt} (h : Counted items) (P : Receipt → Prop)
    [DecidablePred P] : IsCount (Tokens.sum (sumWhere P (·.usage.spend.tokens) items)) := by
  have heq : Tokens.sum (sumWhere P (·.usage.spend.tokens) items) =
      sumWhere P (·.usage.spend.tokens.sum) items := map_sumWhere sumHom
  rw [heq]
  exact h.total P

end Sulion.Usage.Claude
