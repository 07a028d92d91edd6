import Sulion.Usage.Replay

set_option autoImplicit false

/-! # Live usage equals its rebuild

`live_usage_eq_rebuild_iff` compares the upserts of `Upsert.lean` with the replay of
`Replay.lean`. Both compute `Charges`, the sums in unbounded integers that say what the
session has spent; `Sim` is the relation between live tables, replay and charges that one
record keeps (`sim_step`). The exception is a `token_count` whose last call reports more
reasoning than tokens in all: its negative context fails the table's check, and the record
is not ingested.
-/

namespace Sulion.Usage

open Rust Ingest

/-! ## Live ingest beside the replay -/

section Simulation

variable {jsonbText : Json → String} {s : UsageState} {r : Replay} {c : Charges} {last : Int}
  {e : SourceEvent}

/-- `day` is the last change of the replay, and the live session row. -/
structure Latest (s : UsageState) (r : Replay) (c : Charges) (last : Int) (total : UsageUpdate)
    (day : ReplayDay) : Prop where
  session : s.tables.session = some day.row
  entry : r.days[day.timestamp.dateNaive]? = some day
  total_eq : day.total = { total with mode := .cumulative }
  modern : day.modern = decide (r.responses ≠ ∅)
  spend : c.spend = some total.spend
  max : ∀ (d : Day) (other : ReplayDay), r.days[d]? = some other → other.byteOffset ≤ day.byteOffset
  le_last : day.byteOffset ≤ last

/-- Live tables, replay and charges after the same records, all at or below `last`. -/
structure Sim (jsonbText : Json → String) (s : UsageState) (r : Replay) (c : Charges) (last : Int) :
    Prop where
  below : ∀ (k : Int) (row : EventRow), s.events[k]? = some row → k ≤ last
  recorded : ∀ offset, last ≤ offset → recordedModel jsonbText s.events offset = r.model
  model : c.model = r.model
  live_responses : s.tables.responses = r.responses
  responses : c.responses = r.responses
  sound : r.Sound
  idle : r.total = none → s.tables.session = none ∧ r.days = ∅ ∧ c.spend = none ∧ r.responses = ∅
  latest : ∀ total, r.total = some total → ∃ day, Latest s r c last total day
  message : ∀ total, r.total = some total → ∀ id ∈ total.messageId, id ∈ r.responses
  daily : ∀ d : Day, s.tables.daily[d]? = (r.days[d]?).map ReplayDay.snapshot
  models : ∀ key : Day × String, (s.tables.models[key]?).map ModelRow.tokens = r.models[key]?
  byModel : ∀ key : Day × String, c.byModel key = (r.models[key]?).getD 0

theorem sim_empty (last : Int) : Sim jsonbText .empty .default .none last where
  below := by simp [UsageState.empty]
  recorded offset _ := by
    have hnone : ∀ p, lastEventBefore UsageState.empty.events (offset + 1) p = none := fun p =>
      lastEventBefore_eq_none_iff.mpr (by simp [UsageState.empty])
    rw [recordedModel, hnone]
    rfl
  model := rfl
  live_responses := rfl
  responses := rfl
  sound := by constructor <;> simp [Replay.default]
  idle _ := ⟨rfl, rfl, rfl, rfl⟩
  latest := by simp [Replay.default]
  message := by simp [Replay.default]
  daily := by simp [UsageState.empty, UsageTables.empty, Replay.default]
  models := by simp [UsageState.empty, UsageTables.empty, Replay.default]
  byModel := by simp [Charges.none, Replay.default]

/-- The model of a session after one more record. -/
theorem recordedModel_insert
    (hbelow : ∀ (k : Int) (row : EventRow), s.events[k]? = some row → k ≤ last)
    (hlt : last < e.1) {offset : Int} (hle : e.1 ≤ offset) :
    recordedModel jsonbText (s.events.insert e.1 e.2) offset =
      if storedEventKind .codex e.2.payload = "turn_context" ∧
        e.2.subtype ≠ some inheritedHistory then
        (e.2.payload.textAt jsonbText ["payload", "model"]).or
          (recordedModel jsonbText s.events offset)
      else recordedModel jsonbText s.events offset := by
  have htop : ∀ (k : Int) (row : EventRow), s.events[k]? = some row → k < e.1 := fun k row hk =>
    lt_of_le_of_lt (hbelow k row hk) hlt
  rw [recordedModel, lastEventBefore_insert htop (by omega)]
  by_cases hkind : storedEventKind .codex e.2.payload = "turn_context" ∧
      e.2.subtype ≠ some inheritedHistory
  · rw [if_pos hkind]
    cases htext : e.2.payload.textAt jsonbText ["payload", "model"] with
    | none => simp [recordedModel]
    | some model => simp [hkind, htext]
  · rw [if_neg hkind, recordedModel, if_neg]
    simpa [and_assoc] using fun h1 h2 => absurd ⟨h1, h2⟩ hkind

theorem Latest.mono {total : UsageUpdate} {day : ReplayDay} (h : Latest s r c last total day)
    {s' : UsageState} {r' : Replay} {c' : Charges} {last' : Int} (hle : last ≤ last')
    (hs : s'.tables.session = s.tables.session) (hdays : r'.days = r.days)
    (hresponses : r'.responses = r.responses) (hc : c'.spend = c.spend) :
    Latest s' r' c' last' total day where
  session := hs ▸ h.session
  entry := hdays ▸ h.entry
  total_eq := h.total_eq
  modern := hresponses ▸ h.modern
  spend := hc ▸ h.spend
  max := hdays ▸ h.max
  le_last := h.le_last.trans hle

/-- A record that charges nothing. -/
theorem Sim.uncharged (h : Sim jsonbText s r c last) (hlt : last < e.1) {model : Option String}
    {r' : Replay} {c' : Charges} (hr : r' = { r with model := model })
    (hc : c' = { c with model := model })
    (hmodel : ∀ offset, e.1 ≤ offset →
      recordedModel jsonbText (s.events.insert e.1 e.2) offset = model) :
    Sim jsonbText ⟨s.events.insert e.1 e.2, s.tables⟩ r' c' e.1 := by
  subst hr hc
  refine
    { below := fun k row hk => ?_
      recorded := hmodel
      model := rfl
      live_responses := h.live_responses
      responses := h.responses
      sound := ⟨h.sound.day_eq, h.sound.offset_inj, h.sound.sticky, h.sound.cumulative, h.sound.fit,
        h.sound.models_fit⟩
      idle := h.idle
      latest := fun total htotal => ?_
      message := h.message
      daily := h.daily
      models := h.models
      byModel := h.byModel }
  · rw [Table.lookup_insert] at hk
    split at hk
    · rename_i heq
      exact heq.ge
    · exact (h.below k row hk).trans hlt.le
  · obtain ⟨day, hday⟩ := h.latest total htotal
    exact ⟨day, hday.mono hlt.le rfl rfl rfl rfl⟩

/-- The entry a change leaves for its day. -/
def changedDay (e : SourceEvent) (total : UsageUpdate) (responses : Finset String) : ReplayDay :=
  ⟨e.1, e.2.timestamp, { total with mode := .cumulative }, decide (responses ≠ ∅)⟩

/-- What a record that changes the total does to live tables, replay and charges. -/
structure Changed (s : UsageState) (r : Replay) (c : Charges) (e : SourceEvent)
    (total : UsageUpdate)
    (tables : UsageTables) (r' : Replay) (c' : Charges) : Prop where
  total_eq : r'.total = some total
  model : r'.model = r.model
  responses : r.responses ⊆ r'.responses
  days : r'.days =
    r.days.insert e.2.timestamp.dateNaive (changedDay e total r'.responses)
  live_session : tables.session = some (changedDay e total r'.responses).row
  live_daily : tables.daily =
    s.tables.daily.insert e.2.timestamp.dateNaive (changedDay e total r'.responses).snapshot
  live_responses : tables.responses = r'.responses
  charges_responses : c'.responses = r'.responses
  charges_model : c'.model = r.model
  charges_spend : c'.spend = some total.spend
  message : ∀ id ∈ total.messageId, id ∈ r'.responses
  sticky : ∀ before, r.total = some before →
    (before.contextTokens.isSome → total.contextTokens.isSome) ∧
    (before.modelContextWindow.isSome → total.modelContextWindow.isSome) ∧
    (before.messageId.isSome → total.messageId.isSome)
  fit : (changedDay e total r'.responses).row.Fit
  models : ∀ key : Day × String, (tables.models[key]?).map ModelRow.tokens = r'.models[key]?
  models_fit : ∀ (key : Day × String) (tokens : Tokens), r'.models[key]? = some tokens → tokens.Fit
  byModel : ∀ key : Day × String, c'.byModel key = (r'.models[key]?).getD 0

theorem Sticky.trans {a b d : ReplayDay} (h : Sticky a b) (h' : Sticky b d) : Sticky a d :=
  ⟨h'.context ∘ h.context, h'.window ∘ h.window, h'.message ∘ h.message, h'.modern ∘ h.modern⟩

theorem Sticky.refl (a : ReplayDay) : Sticky a a := ⟨id, id, id, id⟩

/-- The new entry lies behind every other and knows what they know. -/
theorem Sim.before_changed (h : Sim jsonbText s r c last) (hlt : last < e.1) {total : UsageUpdate}
    {tables : UsageTables} {r' : Replay} {c' : Charges} (hc : Changed s r c e total tables r' c')
    {d : Day} {other : ReplayDay} (hother : r.days[d]? = some other) :
    other.byteOffset < e.1 ∧ Sticky other (changedDay e total r'.responses) := by
  cases htotal : r.total with
  | none =>
      rw [(h.idle htotal).2.1] at hother
      simp at hother
  | some before =>
      obtain ⟨day, hday⟩ := h.latest before htotal
      have hle := hday.max d other hother
      refine ⟨lt_of_le_of_lt (hle.trans hday.le_last) hlt, ?_⟩
      have hlatest : Sticky other day := by
        rcases hle.lt_or_eq with hlt | heq
        · exact h.sound.sticky _ _ _ _ hother hday.entry hlt
        · have := h.sound.offset_inj _ _ _ _ hother hday.entry heq
          rw [this, hday.entry] at hother
          cases hother
          exact .refl _
      obtain ⟨hcontext, hwindow, hmessage⟩ := hc.sticky before htotal
      refine hlatest.trans ⟨?_, ?_, ?_, fun hmodern => ?_⟩
      · rw [hday.total_eq]
        exact hcontext
      · rw [hday.total_eq]
        exact hwindow
      · rw [hday.total_eq]
        exact hmessage
      · rw [hday.modern, decide_eq_true_eq] at hmodern
        refine decide_eq_true fun hempty => hmodern ?_
        exact Finset.subset_empty.mp (hempty ▸ hc.responses)

/-- **A change keeps the relation.** -/
theorem Sim.changed (h : Sim jsonbText s r c last) (hlt : last < e.1)
    (hrecorded : ∀ offset, e.1 ≤ offset →
      recordedModel jsonbText (s.events.insert e.1 e.2) offset = r.model)
    {total : UsageUpdate} {tables : UsageTables} {r' : Replay} {c' : Charges}
    (hc : Changed s r c e total tables r' c') :
    Sim jsonbText ⟨s.events.insert e.1 e.2, tables⟩ r' c' e.1 := by
  have hentry : ∀ (d : Day) (day : ReplayDay), r'.days[d]? = some day →
      (day = changedDay e total r'.responses ∧ d = e.2.timestamp.dateNaive) ∨
        r.days[d]? = some day := by
    intro d day hd
    rw [hc.days, Table.lookup_insert] at hd
    split at hd
    · rename_i heq
      cases hd
      exact .inl ⟨rfl, heq.symm⟩
    · exact .inr hd
  refine
    { below := fun k row hk => ?_
      recorded := fun offset hle => (hrecorded offset hle).trans hc.model.symm
      model := hc.charges_model.trans hc.model.symm
      live_responses := hc.live_responses
      responses := hc.charges_responses
      sound := ⟨fun d day hd => ?_, fun d d' day day' hd hd' heq => ?_,
        fun d d' day day' hd hd' hlt' => ?_, fun d day hd => ?_, fun d day hd => ?_, hc.models_fit⟩
      idle := fun hnone => by simp [hc.total_eq] at hnone
      latest := fun total' htotal => ?_
      message := fun total' htotal => ?_
      daily := fun d => ?_
      models := hc.models
      byModel := hc.byModel }
  · rw [Table.lookup_insert] at hk
    split at hk
    · rename_i heq
      exact heq.ge
    · exact (h.below k row hk).trans hlt.le
  · rcases hentry d day hd with ⟨rfl, rfl⟩ | hold
    · rfl
    · exact h.sound.day_eq d day hold
  · rcases hentry d day hd with ⟨rfl, rfl⟩ | hold
      <;> rcases hentry d' day' hd' with ⟨rfl, rfl⟩ | hold'
    · rfl
    · exact absurd heq.symm (h.before_changed hlt hc hold').1.ne
    · exact absurd heq (h.before_changed hlt hc hold).1.ne
    · exact h.sound.offset_inj _ _ _ _ hold hold' heq
  · rcases hentry d day hd with ⟨rfl, rfl⟩ | hold
      <;> rcases hentry d' day' hd' with ⟨rfl, rfl⟩ | hold'
    · exact .refl _
    · exact absurd hlt' (h.before_changed hlt hc hold').1.asymm
    · exact (h.before_changed hlt hc hold).2
    · exact h.sound.sticky _ _ _ _ hold hold' hlt'
  · rcases hentry d day hd with ⟨rfl, rfl⟩ | hold
    · rfl
    · exact h.sound.cumulative d day hold
  · rcases hentry d day hd with ⟨rfl, rfl⟩ | hold
    · exact hc.fit
    · exact h.sound.fit d day hold
  · rw [hc.total_eq] at htotal
    cases htotal
    refine ⟨changedDay e total r'.responses, hc.live_session, ?_, rfl, rfl, hc.charges_spend, ?_,
      le_refl _⟩
    · rw [hc.days]
      exact Table.lookup_insert_self _ _ _
    · intro d other hd
      rcases hentry d other hd with ⟨rfl, rfl⟩ | hold
      · exact le_refl _
      · exact (h.before_changed hlt hc hold).1.le
  · rw [hc.total_eq] at htotal
    cases htotal
    exact hc.message
  · show tables.daily[d]? = _
    rw [hc.live_daily, hc.days, Table.lookup_insert, Table.lookup_insert]
    split
    · rfl
    · exact h.daily d

/-! ### The updates of a Codex session -/

/-- A response record: a delta with its response id, and no word on the context. -/
structure IsResponse (usage : UsageUpdate) : Prop where
  mode : usage.mode = .delta
  message : ∃ id, usage.messageId = some id
  context : usage.contextTokens = none
  window : usage.modelContextWindow = none

/-- A cumulative total. -/
structure IsTotal (usage : UsageUpdate) : Prop where
  mode : usage.mode = .cumulative
  message : usage.messageId = none

theorem extractCodexUsage_cases {value : Json} {usage : UsageUpdate}
    (h : extractCodexUsage value = some usage) : IsResponse usage ∨ IsTotal usage := by
  obtain ⟨payload, _, h⟩ := Option.bind_eq_some_iff.mp h
  split at h
  · obtain ⟨⟨id, object⟩, _, rfl⟩ := Option.map_eq_some_iff.mp h
    exact .inl ⟨rfl, ⟨id, rfl⟩, rfl, rfl⟩
  · obtain ⟨⟨info, total⟩, _, rfl⟩ := Option.map_eq_some_iff.mp h
    exact .inr ⟨rfl, rfl⟩

theorem saturatingSub_nonneg_iff {a b : Int} (ha : IsCount a) (hb : IsCount b) :
    0 ≤ saturatingSub a b ↔ b ≤ a := by
  obtain ⟨ha0, ha1⟩ := ha
  obtain ⟨hb0, hb1⟩ := hb
  unfold saturatingSub i64Clamp i64Min i64Max at *
  omega

/-- The context of an update fits its column exactly when the last call's counts are
consistent. -/
theorem contextCounted_iff {value : Json} {usage : UsageUpdate}
    (h : extractCodexUsage value = some usage) :
    ContextCounted value ↔ ∀ tokens ∈ usage.contextTokens, 0 ≤ tokens := by
  obtain ⟨payload, hpayload, h⟩ := Option.bind_eq_some_iff.mp h
  split at h
  · rename_i hkind
    obtain ⟨⟨id, object⟩, _, rfl⟩ := Option.map_eq_some_iff.mp h
    refine ⟨fun _ => by simp, fun _ info total hinfo => ?_⟩
    simp [tokenCountInfo, hpayload, hkind] at hinfo
  · obtain ⟨⟨info, total⟩, hinfo, rfl⟩ := Option.map_eq_some_iff.mp h
    have hiff : ∀ last, 0 ≤ saturatingSub (totalTokenCount last)
        (tokenAt last "reasoning_output_tokens") ↔
          tokenAt last "reasoning_output_tokens" ≤ totalTokenCount last := fun last =>
      saturatingSub_nonneg_iff (isCount_totalTokenCount last) (isCount_tokenAt last _)
    constructor
    · intro hcounted tokens htokens
      obtain ⟨last, hlast, rfl⟩ := Option.map_eq_some_iff.mp htokens
      exact (hiff last).mpr (hcounted info total hinfo last hlast)
    · intro hfit info' total' hinfo' last hlast
      rw [hinfo] at hinfo'
      cases hinfo'
      exact (hiff last).mp (hfit _ (Option.map_eq_some_iff.mpr ⟨last, hlast, rfl⟩))

theorem isCount_of_codex {value : Json} {usage : UsageUpdate}
    (h : extractCodexUsage value = some usage) (column : SpendColumn) :
    IsCount (usage.spend column) :=
  isCount_extractUsage (show extractUsage .codex value = some usage from h) column

theorem window_of_codex {value : Json} {usage : UsageUpdate}
    (h : extractCodexUsage value = some usage) :
    ∀ window ∈ usage.modelContextWindow, 0 < window := fun _ hw =>
  window_extractUsage (show extractUsage .codex value = some usage from h) hw

/-! ### A record that only reports the context -/

theorem sim_updateContext (h : Sim jsonbText s r c last) (hlt : last < e.1)
    {usage : UsageUpdate} (husage : extractCodexUsage e.2.payload = some usage)
    (hmode : usage.mode = .cumulative) (hmodern : r.responses ≠ ∅)
    (hcontext : ∀ tokens ∈ usage.contextTokens, 0 ≤ tokens) :
    ∃ tables, updateContext s.tables e.1 e.2.timestamp usage = some tables ∧
      ∃ total, Changed s r c e total tables (r.charge e usage) c := by
  obtain ⟨before, hbefore⟩ : ∃ before, r.total = some before := by
    cases htotal : r.total with
    | none => exact absurd (h.idle htotal).2.2.2 hmodern
    | some before => exact ⟨before, rfl⟩
  obtain ⟨day, hday⟩ := h.latest before hbefore
  have hdayFit : day.row.Fit := h.sound.fit _ _ hday.entry
  have hdayTotal : day.total = { before with mode := .cumulative } := hday.total_eq
  let total := accumulate before usage true
  have hrow : (changedDay e total r.responses).row =
      { day.row with
        contextTokens := usage.contextTokens.or day.row.contextTokens
        modelContextWindow := usage.modelContextWindow.or day.row.modelContextWindow
        lastByteOffset := e.1
        observedAt := e.2.timestamp } := by
    simp only [changedDay, ReplayDay.row, proposedRow, hdayTotal, hday.modern]
    rfl
  have hfit : (changedDay e total r.responses).row.Fit := by
    rw [hrow]
    refine ⟨hdayFit.spend, fun tokens htokens => ?_, fun window hwindow => ?_⟩
    · rcases Option.or_eq_some_iff.mp htokens with hnew | ⟨_, hold⟩
      · exact hcontext tokens hnew
      · exact hdayFit.context tokens hold
    · rcases Option.or_eq_some_iff.mp hwindow with hnew | ⟨_, hold⟩
      · exact window_of_codex husage window hnew
      · exact hdayFit.window window hold
  have hlast : day.row.lastByteOffset < e.1 := lt_of_le_of_lt hday.le_last hlt
  have hcharge : r.charge e usage =
      { r with
        total := some total
        days := r.days.insert e.2.timestamp.dateNaive (changedDay e total r.responses) } := by
    have honly : decide (usage.mode ≠ .delta ∧ r.responses ≠ ∅) = true :=
      decide_eq_true ⟨by rw [hmode]; decide, hmodern⟩
    simp only [Replay.charge, hbefore, honly]
    rfl
  refine ⟨{ s.tables with
      session := some (changedDay e total r.responses).row
      daily := s.tables.daily.insert e.2.timestamp.dateNaive
        (changedDay e total r.responses).snapshot }, ?_, total, ?_⟩
  · simp only [updateContext, hday.session, if_pos hlast, ← hrow, if_pos hfit]
    rfl
  · rw [hcharge]
    exact
      { total_eq := rfl
        model := rfl
        responses := fun _ => id
        days := rfl
        live_session := rfl
        live_daily := rfl
        live_responses := h.live_responses
        charges_responses := h.responses
        charges_model := h.model
        charges_spend := hday.spend
        message := h.message before hbefore
        sticky := fun other hother => by
          rw [hbefore] at hother
          cases hother
          refine ⟨fun hsome => ?_, fun hsome => ?_, id⟩
          · show (usage.contextTokens.or before.contextTokens).isSome = true
            simp [Option.isSome_or, hsome]
          · show (usage.modelContextWindow.or before.modelContextWindow).isSome = true
            simp [Option.isSome_or, hsome]
        fit := hfit
        models := h.models
        models_fit := h.sound.models_fit
        byModel := h.byModel }

/-! ### A record that is charged -/

/-- An update that is charged, and the responses known with it. -/
inductive Charged (r : Replay) (usage : UsageUpdate) : Finset String → Prop
  | total (h : IsTotal usage) (hnone : r.responses = ∅) : Charged r usage r.responses
  | response (h : IsResponse usage) (id : String) (hid : usage.messageId = some id)
      (hnew : id ∉ r.responses) : Charged r usage (insert id r.responses)

variable {usage : UsageUpdate} {responses : Finset String}

theorem Charged.modern (h : Charged r usage responses) :
    decide (usage.mode = .delta) = decide (responses ≠ ∅) := by
  cases h with
  | total h hnone => simp [h.mode, hnone]
  | response h id hid hnew => simp [h.mode]

theorem Charged.charges (h : Charged r usage responses) :
    decide (usage.mode ≠ .delta ∧ responses ≠ ∅) = false := by
  cases h with
  | total h hnone => simp [hnone]
  | response h id hid hnew => simp [h.mode]

/-- The total after the charge. -/
def chargedTotal (r : Replay) (usage : UsageUpdate) : UsageUpdate :=
  r.total.elim usage fun total => accumulate total usage false

/-- The sum in unbounded integers is the replay's saturating one. -/
theorem Sim.chargedTotal_spend (h : Sim jsonbText s r c last)
    (husage : extractCodexUsage e.2.payload = some usage) (hcharged : Charged r usage responses)
    (hfit : (c.charge e usage).Fit) :
    (c.charge e usage).spend = some (chargedTotal r usage).spend := by
  have hmax := hfit.spend
  simp only [Charges.charge] at hmax ⊢
  cases htotal : r.total with
  | none =>
      rw [(h.idle htotal).2.2.1]
      cases hcharged with
      | total ht _ => simp [chargedTotal, htotal, ht.mode]
      | response hr _ _ _ => simp [chargedTotal, htotal, hr.mode]
  | some before =>
      obtain ⟨day, hday⟩ := h.latest before htotal
      rw [hday.spend] at hmax ⊢
      cases hcharged with
      | total ht _ => simp [chargedTotal, htotal, ht.mode, accumulate]
      | response hr _ _ _ =>
          rw [hr.mode] at hmax
          have hbefore : ∀ column, IsCount (before.spend column) := by
            have := (h.sound.fit _ _ hday.entry).spend
            rw [Spend.fit_iff] at this
            simpa only [ReplayDay.row, proposedRow, hday.total_eq] using this
          simp only [chargedTotal, htotal, hr.mode, accumulate, Option.elim_some, Option.getD_some,
            Option.some.injEq]
          funext column
          have h0 := (hbefore column).1
          have h1 := (isCount_of_codex husage column).1
          exact (i64Clamp_of_mem (add_nonneg h0 h1) (hmax _ rfl column)).symm

/-- The charge to the bucket is the same on both sides. -/
theorem Sim.dailyDelta_eq (h : Sim jsonbText s r c last)
    (husage : extractCodexUsage e.2.payload = some usage) (hcharged : Charged r usage responses)
    {previous : Option StoredUsage}
    (hprevious : r.total = none ∧ previous = none ∨ ∃ total stored, r.total = some total ∧
      previous = some stored ∧ stored.tokens = total.spend.tokens ∧
      stored.lastUsageMessageId = total.messageId) :
    dailyDelta usage previous = chargedTokens (c.spend.getD 0) usage := by
  have hcount : ∀ column, IsCount (usage.spend column) := isCount_of_codex husage
  cases hcharged with
  | total ht _ =>
      simp only [dailyDelta, chargedTokens, ht.mode]
      funext column
      have hsub : ∀ b, IsCount b →
          saturatingSub (usage.spend (.token column)) b = usage.spend (.token column) - b := by
        intro b hb
        obtain ⟨ha0, ha1⟩ := hcount (.token column)
        obtain ⟨hb0, hb1⟩ := hb
        unfold saturatingSub i64Clamp i64Min i64Max at *
        omega
      rcases hprevious with ⟨hnone, rfl⟩ | ⟨total, stored, htotal, rfl, htokens, _⟩
      · rw [(h.idle hnone).2.2.1, Option.elim_none, hsub 0 isCount_zero]
        rfl
      · obtain ⟨day, hday⟩ := h.latest total htotal
        have hfit := (h.sound.fit _ _ hday.entry).spend
        rw [Spend.fit_iff] at hfit
        have hbefore : IsCount (total.spend (.token column)) := by
          simpa only [ReplayDay.row, proposedRow, hday.total_eq] using hfit (.token column)
        rw [hday.spend, Option.elim_some, htokens, Spend.tokens_apply, hsub _ hbefore]
        rfl
  | response hr id hid hnew =>
      have hdup : (previous.bind (·.lastUsageMessageId)) ≠ some id := by
        rcases hprevious with ⟨_, rfl⟩ | ⟨total, stored, htotal, rfl, _, hmessage⟩
        · simp
        · rw [Option.bind_some, hmessage]
          exact fun heq => hnew (h.message total htotal id heq)
      simp only [dailyDelta, chargedTokens, hr.mode, hid, Option.isSome_some, true_and, if_neg hdup]
      funext column
      exact max_eq_left (hcount (.token column)).1

theorem chargedTotal_message (hcharged : Charged r usage responses) :
    ∀ id ∈ (chargedTotal r usage).messageId, id ∈ responses := by
  intro id hid
  cases hcharged with
  | total ht hnone =>
      have hmessage : (chargedTotal r usage).messageId = none := by
        cases htotal : r.total <;> simp [chargedTotal, htotal, accumulate, ht.mode, ht.message]
      simp [hmessage] at hid
  | response hr id' hid' _ =>
      have hmessage : (chargedTotal r usage).messageId = some id' := by
        cases htotal : r.total <;> simp [chargedTotal, htotal, accumulate, hr.mode, hid']
      rw [hmessage] at hid
      cases hid
      exact Finset.mem_insert_self _ _

theorem Charged.subset (h : Charged r usage responses) : r.responses ⊆ responses := by
  cases h with
  | total _ _ => exact fun _ => id
  | response _ _ _ _ => exact Finset.subset_insert _ _

/-- What the total before knew, the total after knows. -/
theorem chargedTotal_sticky (hcharged : Charged r usage responses) {before : UsageUpdate}
    (hbefore : r.total = some before) (hmessage : ∀ id ∈ before.messageId, id ∈ r.responses) :
    (before.contextTokens.isSome → (chargedTotal r usage).contextTokens.isSome) ∧
    (before.modelContextWindow.isSome → (chargedTotal r usage).modelContextWindow.isSome) ∧
    (before.messageId.isSome → (chargedTotal r usage).messageId.isSome) := by
  simp only [chargedTotal, hbefore, Option.elim_some, accumulate]
  refine
    ⟨fun hsome => by simp [Option.isSome_or, hsome], fun hsome => by simp [Option.isSome_or, hsome],
    fun hsome => ?_⟩
  cases hcharged with
  | total ht hnone =>
      obtain ⟨id, hid⟩ := Option.isSome_iff_exists.mp hsome
      have := hmessage id hid
      simp [hnone] at this
  | response hr id hid _ => simp [hr.mode, hid]

/-- The row of a charged update fits its columns. -/
theorem Sim.charged_fit (h : Sim jsonbText s r c last)
    (husage : extractCodexUsage e.2.payload = some usage) (hcharged : Charged r usage responses)
    (hfit : (c.charge e usage).Fit) (hcontext : ∀ tokens ∈ usage.contextTokens, 0 ≤ tokens) :
    (changedDay e (chargedTotal r usage) responses).row.Fit := by
  have hspend := h.chargedTotal_spend husage hcharged hfit
  have hcount : ∀ column, IsCount (usage.spend column) := isCount_of_codex husage
  refine ⟨?_, fun tokens htokens => ?_, fun window hwindow => ?_⟩
  · rw [Spend.fit_iff]
    refine fun column => ⟨?_, hfit.spend _ hspend column⟩
    show 0 ≤ (chargedTotal r usage).spend column
    cases htotal : r.total with
    | none =>
        simp only [chargedTotal, htotal, Option.elim_none]
        exact (hcount column).1
    | some before =>
        obtain ⟨day, hday⟩ := h.latest before htotal
        have hbefore := (h.sound.fit _ _ hday.entry).spend
        rw [Spend.fit_iff] at hbefore
        have hb : IsCount (before.spend column) := by
          simpa only [ReplayDay.row, proposedRow, hday.total_eq] using hbefore column
        cases hcharged with
        | total ht _ =>
            simp only [chargedTotal, htotal, Option.elim_some, accumulate, ht.mode]
            exact (hcount column).1
        | response hr _ _ _ =>
            simp only [chargedTotal, htotal, Option.elim_some, accumulate, hr.mode]
            exact i64Clamp_nonneg (add_nonneg hb.1 (hcount column).1)
  · change tokens ∈ (chargedTotal r usage).contextTokens at htokens
    cases htotal : r.total with
    | none =>
        simp only [chargedTotal, htotal, Option.elim_none] at htokens
        exact hcontext tokens htokens
    | some before =>
        obtain ⟨day, hday⟩ := h.latest before htotal
        simp only [chargedTotal, htotal, Option.elim_some, accumulate] at htokens
        rcases Option.or_eq_some_iff.mp htokens with hnew | ⟨_, hold⟩
        · exact hcontext tokens hnew
        · refine (h.sound.fit _ _ hday.entry).context tokens ?_
          simpa only [ReplayDay.row, proposedRow, hday.total_eq, Option.mem_def] using hold
  · change window ∈ (chargedTotal r usage).modelContextWindow at hwindow
    cases htotal : r.total with
    | none =>
        simp only [chargedTotal, htotal, Option.elim_none] at hwindow
        exact window_of_codex husage window hwindow
    | some before =>
        obtain ⟨day, hday⟩ := h.latest before htotal
        simp only [chargedTotal, htotal, Option.elim_some, accumulate] at hwindow
        rcases Option.or_eq_some_iff.mp hwindow with hnew | ⟨_, hold⟩
        · exact window_of_codex husage window hnew
        · refine (h.sound.fit _ _ hday.entry).window window ?_
          simpa only [ReplayDay.row, proposedRow, hday.total_eq, Option.mem_def] using hold

/-- The upsert makes the row the replay stores for the day. -/
theorem Sim.storeUsage_eq (h : Sim jsonbText s r c last) (hlt : last < e.1)
    (husage : extractCodexUsage e.2.payload = some usage) (hcharged : Charged r usage responses)
    (hfit : (c.charge e usage).Fit) (hcontext : ∀ tokens ∈ usage.contextTokens, 0 ≤ tokens)
    {tables : UsageTables} (htables : tables.session = s.tables.session) :
    storeUsage tables .codex e.1 e.2.timestamp usage (decide (usage.mode = .delta)) =
      some { tables with session := some (changedDay e (chargedTotal r usage) responses).row } := by
  have hrowFit := h.charged_fit husage hcharged hfit hcontext
  have hspend := h.chargedTotal_spend husage hcharged hfit
  have hexcluded :
      (proposedRow .codex e.1 e.2.timestamp usage (decide (usage.mode = .delta))).Fit :=
    ⟨Spend.fit_iff.mpr (isCount_of_codex husage), hcontext, window_of_codex husage⟩
  cases htotal : r.total with
  | none =>
      have hrow : proposedRow .codex e.1 e.2.timestamp usage (decide (usage.mode = .delta))
          = (changedDay e (chargedTotal r usage) responses).row := by
        simp only [chargedTotal, htotal, hcharged.modern]
        rfl
      simp only [storeUsage, htables, (h.idle htotal).1, hrow, and_self, if_pos hrowFit]
  | some before =>
      obtain ⟨day, hday⟩ := h.latest before htotal
      have hlast : day.row.lastByteOffset < e.1 := lt_of_le_of_lt hday.le_last hlt
      have hrow : day.row.upsert
          (proposedRow .codex e.1 e.2.timestamp usage (decide (usage.mode = .delta)))
          (decide (usage.mode = .delta)) = (changedDay e (chargedTotal r usage) responses).row := by
        have hcontexts : (usage.contextTokens.or before.contextTokens)
            = (chargedTotal r usage).contextTokens := by
          simp only [chargedTotal, htotal, Option.elim_some, accumulate]
        have hwindows : (usage.modelContextWindow.or before.modelContextWindow)
            = (chargedTotal r usage).modelContextWindow := by
          simp only [chargedTotal, htotal, Option.elim_some, accumulate]
        cases hcharged with
        | total ht hnone =>
            have hmessage : before.messageId = none := by
              refine Option.eq_none_iff_forall_not_mem.mpr fun id hid => ?_
              have := h.message before htotal id hid
              simp [hnone] at this
            have hcharge : chargedTotal r usage =
                { usage with
                  contextTokens := (chargedTotal r usage).contextTokens
                  modelContextWindow := (chargedTotal r usage).modelContextWindow } := by
              simp [chargedTotal, htotal, accumulate, ht.mode]
            rw [hcharge]
            simp [SessionRow.upsert, ReplayDay.row, proposedRow, changedDay, hday.total_eq,
              hday.modern,
              ht.mode, ht.message, hmessage, hnone, hcontexts, hwindows]
        | response hr id hid hnew =>
            have hdup : some id ≠ before.messageId := fun heq =>
              hnew (h.message before htotal id heq.symm)
            have hsum : before.spend + usage.spend = (chargedTotal r usage).spend := by
              simpa [Charges.charge, hr.mode, hday.spend] using hspend
            have hmessage : (chargedTotal r usage).messageId = some id := by
              simp [chargedTotal, htotal, accumulate, hr.mode, hid]
            simp [SessionRow.upsert, ReplayDay.row, proposedRow, changedDay, hday.total_eq, hr.mode,
              hid, hdup, hsum, hmessage, hcontexts, hwindows]
      simp only [storeUsage, htables, hday.session, if_pos hlast, hrow, hexcluded, hrowFit,
        and_self,
        if_true]

theorem wrappingAdd_of_mem {a b : Int} (h0 : 0 ≤ a + b) (h1 : a + b ≤ i64Max) :
    wrappingAdd a b = a + b := by
  unfold wrappingAdd i64Max at *
  rw [Int.bmod_def, Int.emod_eq_of_lt h0 (by omega), if_pos (by omega)]

theorem addModelDaily_eq {tables : UsageTables} {model : String} {observedAt : Timestamp}
    {delta : Tokens} (agent : String) (messageId : Option String) (hdelta : delta.Fit)
    (hsum : ((((tables.models[(observedAt.dateNaive, model)]?).map ModelRow.tokens).getD 0) +
      delta).Fit) :
    ∃ row : ModelRow, addModelDaily tables agent model observedAt delta messageId = some
        { tables with models := tables.models.insert (observedAt.dateNaive, model) row } ∧
      row.tokens = (((tables.models[(observedAt.dateNaive, model)]?).map ModelRow.tokens).getD 0) +
        delta := by
  cases hrow : tables.models[(observedAt.dateNaive, model)]? with
  | none =>
      refine ⟨⟨agent, delta, messageId⟩, ?_, ?_⟩
      · simp only [addModelDaily, hrow]
        exact if_pos ⟨hdelta, hdelta⟩
      · simp
  | some row =>
      rw [hrow, Option.map_some, Option.getD_some] at hsum
      refine ⟨⟨agent, row.tokens + delta, messageId.or row.lastUsageMessageId⟩, ?_, ?_⟩
      · simp only [addModelDaily, hrow]
        exact if_pos ⟨hdelta, hsum⟩
      · simp

theorem chargedTokens_nonneg {before : Spend} (hcount : ∀ column, IsCount (usage.spend column))
    (column : TokenColumn) : 0 ≤ chargedTokens before usage column := by
  cases hmode : usage.mode with
  | delta =>
      simp only [chargedTokens, hmode]
      exact (hcount (.token column)).1
  | cumulative =>
      simp only [chargedTokens, hmode]
      exact le_max_right _ _

/-- **A charged update** is stored, added to its bucket and snapshot alike on both sides. -/
theorem sim_charge (h : Sim jsonbText s r c last) (hlt : last < e.1)
    (hrecorded : recordedModel jsonbText (s.events.insert e.1 e.2) e.1 = r.model)
    (husage : extractCodexUsage e.2.payload = some usage) (hcharged : Charged r usage responses)
    (hfit : ({ c with responses := responses }.charge e usage).Fit)
    (hcontext : ∀ tokens ∈ usage.contextTokens, 0 ≤ tokens) :
    ∃ tables, chargeUsage jsonbText { s.tables with responses := responses }
        (s.events.insert e.1 e.2) .codex e.1 e.2.timestamp usage
        (s.tables.session.map SessionRow.stored) (decide (usage.mode = .delta)) = some tables ∧
      Changed s r c e (chargedTotal r usage) tables
        ({ r with responses := responses }.charge e usage)
        ({ c with responses := responses }.charge e usage) := by
  have hfit' : (c.charge e usage).Fit := ⟨hfit.spend, hfit.byModel⟩
  have hcount : ∀ column, IsCount (usage.spend column) := isCount_of_codex husage
  have hmodel : c.model = r.model := h.model
  -- What both sides subtract a cumulative total from is the same.
  have hlive : dailyDelta usage (s.tables.session.map SessionRow.stored)
      = chargedTokens (c.spend.getD 0) usage := by
    refine h.dailyDelta_eq husage hcharged ?_
    cases htotal : r.total with
    | none => exact .inl ⟨rfl, by simp [(h.idle htotal).1]⟩
    | some total =>
        obtain ⟨day, hday⟩ := h.latest total htotal
        refine .inr ⟨total, day.row.stored, rfl, by simp [hday.session], ?_, ?_⟩
        · simp only [SessionRow.stored, ReplayDay.row, proposedRow, hday.total_eq]
        · simp only [SessionRow.stored, ReplayDay.row, proposedRow, hday.total_eq]
  have hreplay : dailyDelta usage (Replay.stored { r with responses := responses })
      = chargedTokens (c.spend.getD 0) usage := by
    refine h.dailyDelta_eq husage hcharged ?_
    cases htotal : r.total with
    | none => exact .inl ⟨rfl, rfl⟩
    | some total => exact .inr ⟨total, _, rfl, rfl, rfl, rfl⟩
  have hkey : chargedKey e usage c.model = chargedKey e usage r.model := by rw [hmodel]
  have hdelta : ∀ column, 0 ≤ chargedTokens (c.spend.getD 0) usage column :=
    chargedTokens_nonneg hcount
  have hbefore : ∀ column, 0 ≤ ((r.models[chargedKey e usage r.model]?).getD 0) column := by
    intro column
    cases hmodels : r.models[chargedKey e usage r.model]? with
    | none => exact le_refl 0
    | some tokens => exact (Tokens.fit_iff.mp (h.sound.models_fit _ _ hmodels) column).1
  have hsum : ∀ column, IsCount ((((r.models[chargedKey e usage r.model]?).getD 0)
      + chargedTokens (c.spend.getD 0) usage) column) := by
    intro column
    have hmax := hfit.byModel (chargedKey e usage c.model) column
    simp only [Charges.charge, Function.update_self, h.byModel, hkey] at hmax
    exact ⟨add_nonneg (hbefore column) (hdelta column), hmax⟩
  have hdeltaFit : (chargedTokens (c.spend.getD 0) usage).Fit := by
    refine Tokens.fit_iff.mpr fun column => ⟨hdelta column, ?_⟩
    have h0 := hbefore column
    have h1 := (hsum column).2
    rw [Pi.add_apply] at h1
    omega
  have htables : ((({ s.tables with
      responses := responses
      session := some (changedDay e (chargedTotal r usage) responses).row } : UsageTables).models[
        (e.2.timestamp.dateNaive, (usage.model.or r.model).getD unknownModel)]?.map
          ModelRow.tokens).getD 0 + chargedTokens (c.spend.getD 0) usage).Fit := by
    rw [h.models]
    exact Tokens.fit_iff.mpr hsum
  obtain ⟨row, hadd, hrow⟩ := addModelDaily_eq TranscriptSource.codex.agentId usage.messageId
    hdeltaFit htables
  have hmodels : ({ r with responses := responses }.charge e usage).models
      = r.models.insert (chargedKey e usage r.model) row.tokens := by
    have hwrap :
        (fun column => wrappingAdd (((r.models[chargedKey e usage r.model]?).getD 0) column)
        (chargedTokens (c.spend.getD 0) usage column)) = row.tokens := by
      rw [hrow, h.models]
      funext column
      exact wrappingAdd_of_mem (hsum column).1 (hsum column).2
    simp only [Replay.charge, hcharged.charges, hreplay]
    rw [← hwrap]
    rfl
  have htotal : chargedTotal r usage = r.total.elim usage fun total =>
      accumulate total usage (decide (usage.mode ≠ .delta ∧ responses ≠ ∅)) := by
    rw [hcharged.charges]
    rfl
  refine ⟨{ s.tables with
      responses := responses
      session := some (changedDay e (chargedTotal r usage) responses).row
      models := s.tables.models.insert (chargedKey e usage r.model) row
      daily := s.tables.daily.insert e.2.timestamp.dateNaive
        (changedDay e (chargedTotal r usage) responses).snapshot }, ?_, ?_⟩
  · have hstore := h.storeUsage_eq hlt husage hcharged hfit' hcontext
      (show ({ s.tables with responses := responses } : UsageTables).session = s.tables.session
        from rfl)
    have hlookup : (usage.model.or (if usage.model.isNone = true then
        recordedModel jsonbText (s.events.insert e.1 e.2) e.1 else none)).getD unknownModel
          = (usage.model.or r.model).getD unknownModel := by
      rw [hrecorded]
      cases usage.model <;> rfl
    simp only [chargeUsage, true_and, hlookup, hlive, hstore, Option.bind_eq_bind,
      Option.bind_some, hadd]
    rfl
  · exact
      { total_eq := congrArg some htotal.symm
        model := rfl
        responses := hcharged.subset
        days := by
          rw [htotal]
          rfl
        live_session := rfl
        live_daily := rfl
        live_responses := rfl
        charges_responses := rfl
        charges_model := hmodel
        charges_spend := h.chargedTotal_spend husage hcharged hfit'
        message := chargedTotal_message hcharged
        sticky := fun before hb => chargedTotal_sticky hcharged hb (h.message before hb)
        fit := h.charged_fit husage hcharged hfit' hcontext
        models := fun key => by
          rw [hmodels, Table.lookup_insert, Table.lookup_insert]
          split
          · rfl
          · exact h.models key
        models_fit := fun key tokens htokens => by
          rw [hmodels, Table.lookup_insert] at htokens
          split at htokens
          · cases htokens
            rw [hrow, h.models]
            exact Tokens.fit_iff.mpr hsum
          · exact h.sound.models_fit key tokens htokens
        byModel := fun key => by
          rw [hmodels, Table.lookup_insert]
          simp only [Charges.charge, hkey]
          by_cases heq : chargedKey e usage r.model = key
          · subst heq
            rw [Function.update_self, if_pos rfl, h.byModel, hrow, h.models]
            rfl
          · rw [Function.update_of_ne (Ne.symm heq), if_neg heq]
            exact h.byModel key }

/-! ### One record -/

/-- What the rebuild makes of a stored event. -/
def Replay.observeStored (r : Replay) (e : SourceEvent) : Replay :=
  if e.2.subtype = some inheritedHistory then r else r.observe e

theorem textAt_eq_stringAt {value : Json} {path : List String}
    (h : ∀ inner, value.at? path = some inner → inner = .null ∨ ∃ s, inner = .str s) :
    value.textAt jsonbText path = value.stringAt path := by
  cases hinner : value.at? path with
  | none => simp [Json.textAt, Json.stringAt, hinner]
  | some inner =>
      rcases h inner hinner with rfl | ⟨s, rfl⟩
      · simp [Json.textAt, Json.stringAt, hinner, Json.asStr]
      · simp [Json.textAt, Json.stringAt, hinner, Json.asStr]

theorem storedEventKind_of_codexRecordKind {value : Json}
    (h : codexRecordKind value = some "turn_context") :
    storedEventKind .codex value = "turn_context" := by
  simp [storedEventKind, h]

theorem Sim.fresh (h : Sim jsonbText s r c last) (hlt : last < e.1) :
    ((s.tables.session.map SessionRow.stored).any fun row => decide (e.1 ≤ row.lastByteOffset))
      = false := by
  cases htotal : r.total with
  | none => simp [(h.idle htotal).1]
  | some total =>
      obtain ⟨day, hday⟩ := h.latest total htotal
      have hle : day.byteOffset ≤ last := hday.le_last
      simp only [hday.session, Option.map_some, Option.any_some, decide_eq_false_iff_not]
      show ¬ e.1 ≤ day.byteOffset
      omega

theorem Sim.modern (h : Sim jsonbText s r c last) :
    ((s.tables.session.map SessionRow.stored).any fun row => row.codexResponseRecords)
      = decide (r.responses ≠ ∅) := by
  cases htotal : r.total with
  | none => simp [(h.idle htotal).1, (h.idle htotal).2.2.2]
  | some total =>
      obtain ⟨day, hday⟩ := h.latest total htotal
      simp only [hday.session, Option.map_some, Option.any_some]
      exact hday.modern

theorem upsertFromEvent_total (h : Sim jsonbText s r c last)
    (hlt : last < e.1) {events : EventTable}
    (husage : extractCodexUsage e.2.payload = some usage) (htotal : IsTotal usage) :
    upsertFromEvent jsonbText s.tables events .codex e.1 e.2.timestamp e.2.payload =
      if r.responses ≠ ∅ then updateContext s.tables e.1 e.2.timestamp usage
      else chargeUsage jsonbText s.tables events .codex e.1 e.2.timestamp usage
        (s.tables.session.map SessionRow.stored) (decide (usage.mode = .delta)) := by
  have hextract : extractUsage .codex e.2.payload = some usage := husage
  simp [upsertFromEvent, hextract, h.fresh hlt, h.modern, htotal.mode]

theorem upsertFromEvent_response (h : Sim jsonbText s r c last) (hlt : last < e.1)
    {events : EventTable} (husage : extractCodexUsage e.2.payload = some usage)
    (hresponse : IsResponse usage) {id : String} (hid : usage.messageId = some id) :
    upsertFromEvent jsonbText s.tables events .codex e.1 e.2.timestamp e.2.payload =
      if id ∈ r.responses then some s.tables
      else chargeUsage jsonbText { s.tables with responses := insert id r.responses } events
        .codex e.1
        e.2.timestamp usage (s.tables.session.map SessionRow.stored)
          (decide (usage.mode = .delta)) := by
  have hextract : extractUsage .codex e.2.payload = some usage := husage
  by_cases hknown : id ∈ r.responses
  · have hsame : insert id s.tables.responses = s.tables.responses := by
      rw [h.live_responses]
      exact Finset.insert_eq_of_mem hknown
    have hlive : id ∈ s.tables.responses := h.live_responses ▸ hknown
    simp [upsertFromEvent, hextract, h.fresh hlt, hresponse.mode, hid, claimResponse, hknown, hlive,
      hsame]
  · simp [upsertFromEvent, hextract, h.fresh hlt, hresponse.mode, hid, claimResponse, hknown,
      h.live_responses]

/-- **The step lemma.** A record above the last one, with a consistent context and with sums
that fit, is ingested, and keeps the relation. -/
theorem sim_step (h : Sim jsonbText s r c last) (hlt : last < e.1)
    (hmodel : ModelIsText e.2.payload)
    (hfit : (c.observe e).Fit)
    (hcontext : e.2.subtype ≠ some inheritedHistory → ContextCounted e.2.payload) :
    ∃ s', ingestUsage jsonbText .codex s e = some s' ∧
      Sim jsonbText s' (r.observeStored e) (c.observe e) e.1 := by
  have hinsert : ∀ offset, e.1 ≤ offset →
      recordedModel jsonbText (s.events.insert e.1 e.2) offset =
        if storedEventKind .codex e.2.payload = "turn_context" ∧
          e.2.subtype ≠ some inheritedHistory then
          (e.2.payload.textAt jsonbText ["payload", "model"]).or
            (recordedModel jsonbText s.events offset)
        else recordedModel jsonbText s.events offset := fun offset hle =>
    recordedModel_insert h.below hlt hle
  have hsame : c = { c with model := r.model } := by rw [← h.model]
  by_cases hinherited : e.2.subtype = some inheritedHistory
  · simp only [ingestUsage, Replay.observeStored, Charges.observe, if_pos hinherited]
    refine ⟨_, rfl, h.uncharged hlt rfl hsame fun offset hle => ?_⟩
    rw [hinsert offset hle, if_neg fun hturn => hturn.2 hinherited]
    exact h.recorded offset (hlt.le.trans hle)
  simp only [ingestUsage, applyRecord, Replay.observeStored, Charges.observe, Replay.observe,
    if_neg hinherited] at hfit ⊢
  by_cases hturn : storedEventKind .codex e.2.payload = "turn_context"
  · -- A turn context changes the model later updates are charged to.
    obtain ⟨hkind, htext⟩ := hmodel hturn
    have hnone : extractUsage .codex e.2.payload = none := by
      simp [extractUsage, extractCodexUsage, extractTokenCount, tokenCountInfo, hkind]
    simp only [upsertFromEvent, hnone, if_pos hkind, Option.map_some]
    refine ⟨_, rfl, h.uncharged hlt rfl (by rw [h.model]) fun offset hle => ?_⟩
    rw [hinsert offset hle, if_pos ⟨hturn, hinherited⟩, textAt_eq_stringAt htext,
      h.recorded offset (hlt.le.trans hle)]
  have hkind : codexRecordKind e.2.payload ≠ some "turn_context" := fun hkind =>
    hturn (storedEventKind_of_codexRecordKind hkind)
  have hrecorded : ∀ offset, e.1 ≤ offset →
      recordedModel jsonbText (s.events.insert e.1 e.2) offset = r.model := by
    intro offset hle
    rw [hinsert offset hle, if_neg fun h => hturn h.1]
    exact h.recorded offset (hlt.le.trans hle)
  simp only [if_neg hkind] at hfit ⊢
  cases husage : extractCodexUsage e.2.payload with
  | none =>
      have hnone : extractUsage .codex e.2.payload = none := husage
      simp only [upsertFromEvent, hnone, Option.map_some]
      exact ⟨_, rfl, h.uncharged hlt rfl hsame hrecorded⟩
  | some usage =>
      have hnonneg := (contextCounted_iff husage).mp (hcontext hinherited)
      simp only [husage] at hfit ⊢
      rcases extractCodexUsage_cases husage with hresponse | htotal
      · obtain ⟨id, hid⟩ := hresponse.message
        rw [upsertFromEvent_response h hlt husage hresponse hid]
        simp only [if_pos hresponse.mode, hid, Option.getD_some, h.responses] at hfit ⊢
        by_cases hknown : id ∈ r.responses
        · simp only [if_pos hknown, Option.map_some]
          exact ⟨_, rfl, h.uncharged hlt rfl hsame hrecorded⟩
        · simp only [if_neg hknown] at hfit ⊢
          obtain ⟨tables, hcharge, hchanged⟩ := sim_charge h hlt (hrecorded e.1 (le_refl _)) husage
            (.response hresponse id hid hknown) hfit hnonneg
          rw [hcharge]
          exact ⟨_, rfl, h.changed hlt hrecorded hchanged⟩
      · have hdelta : ¬ usage.mode = .delta := by simp [htotal.mode]
        rw [upsertFromEvent_total h hlt husage htotal]
        simp only [if_neg hdelta, h.responses] at hfit ⊢
        by_cases hmodern : r.responses = ∅
        · have htables : { s.tables with responses := r.responses } = s.tables := by
            rw [← h.live_responses]
          have hcharges : { c with responses := r.responses } = c := by rw [← h.responses]
          rw [if_neg (not_not.mpr hmodern)] at hfit ⊢
          rw [if_neg (not_not.mpr hmodern)]
          have hsim := sim_charge h hlt (hrecorded e.1 (le_refl _)) husage (.total htotal hmodern)
            (hcharges ▸ hfit) hnonneg
          rw [htables, hcharges] at hsim
          obtain ⟨tables, hcharge, hchanged⟩ := hsim
          rw [hcharge]
          exact ⟨_, rfl, h.changed hlt hrecorded hchanged⟩
        · simp only [ne_eq, hmodern, not_false_eq_true, if_true] at hfit ⊢
          obtain ⟨tables, hcontext, total, hchanged⟩ :=
            sim_updateContext h hlt husage htotal.mode hmodern hnonneg
          rw [hcontext]
          exact ⟨_, rfl, h.changed hlt hrecorded hchanged⟩

theorem extractCodexUsage_of_info {value info total : Json}
    (h : tokenCountInfo value = some (info, total)) : (extractCodexUsage value).isSome := by
  have htotal : (extractTokenCount value).isSome := by simp [extractTokenCount, h]
  obtain ⟨payload, hpayload, hguard⟩ := Option.bind_eq_some_iff.mp h
  split at hguard
  · cases hguard
  · rename_i hkind
    have hrecord : codexRecordKind value ≠ some "token_usage_record" := by
      intro heq
      simp [heq] at hkind
    simpa [extractCodexUsage, hpayload, hrecord] using htotal

/-- A record with a negative context is not ingested. -/
theorem ingestUsage_eq_none (h : Sim jsonbText s r c last) (hlt : last < e.1)
    (hinherited : e.2.subtype ≠ some inheritedHistory) (hcontext : ¬ ContextCounted e.2.payload) :
    ingestUsage jsonbText .codex s e = none := by
  cases husage : extractCodexUsage e.2.payload with
  | none =>
      refine absurd (fun info total hinfo => ?_) hcontext
      have := extractCodexUsage_of_info hinfo
      simp [husage] at this
  | some usage =>
      rw [contextCounted_iff husage] at hcontext
      obtain ⟨tokens, htokens, hneg⟩ : ∃ tokens ∈ usage.contextTokens, ¬ 0 ≤ tokens := by
        push Not at hcontext
        simpa using hcontext
      have htotal : IsTotal usage :=
        (extractCodexUsage_cases husage).resolve_left fun hresponse => by
        simp [hresponse.context] at htokens
      simp only [ingestUsage, applyRecord, if_neg hinherited]
      rw [upsertFromEvent_total h hlt husage htotal, Option.map_eq_none_iff]
      split
      · rename_i hmodern
        obtain ⟨before, hbefore⟩ : ∃ before, r.total = some before := by
          cases htotal : r.total with
          | none => exact absurd (h.idle htotal).2.2.2 hmodern
          | some before => exact ⟨before, rfl⟩
        obtain ⟨day, hday⟩ := h.latest before hbefore
        have hlast : day.row.lastByteOffset < e.1 := lt_of_le_of_lt hday.le_last hlt
        simp only [updateContext, hday.session, if_pos hlast]
        refine if_neg fun hfit => hneg (hfit.context tokens ?_)
        rw [Option.mem_def] at htokens
        simp [htokens]
      · have hstore :
          ∀ tables flag, storeUsage tables .codex e.1 e.2.timestamp usage flag = none := by
          intro tables flag
          exact if_neg fun hfit => hneg (hfit.1.context tokens htokens)
        simp [chargeUsage, hstore]

end Simulation

/-! ## Every session -/

/-- Live ingest takes every event, the rebuild persists, and both leave the same rows. -/
def LiveEqualsRebuild (jsonbText : Json → String) (events : List SourceEvent) : Prop :=
  ∃ live rebuilt, ingestAll jsonbText .codex .empty events = some live ∧
    persistReplay (replayAll events) = some rebuilt ∧ SameUsage live.tables rebuilt

/-- The context condition of a session. -/
def ContextsCounted (events : List SourceEvent) : Prop :=
  ∀ e ∈ events, e.2.subtype ≠ some inheritedHistory → ContextCounted e.2.payload

variable {jsonbText : Json → String} {s : UsageState} {r : Replay} {c : Charges} {last : Int}
  {events : List SourceEvent}

/-- The relation survives every run of records. -/
theorem ingestAll_sim (h : Sim jsonbText s r c last) (hlast : ∀ e ∈ events, last < e.1)
    (horder : ByteOrder events) (hmodels : ∀ e ∈ events, ModelIsText e.2.payload)
    (hsums : ∀ before, before <+: events → (before.foldl Charges.observe c).Fit)
    (hcontexts : ContextsCounted events) :
    ∃ s' last', ingestAll jsonbText .codex s events = some s' ∧
      Sim jsonbText s' (events.foldl Replay.observeStored r)
        (events.foldl Charges.observe c) last' := by
  induction events generalizing s r c last with
  | nil => exact ⟨s, last, rfl, h⟩
  | cons e events ih =>
      rw [ByteOrder, List.pairwise_cons] at horder
      obtain ⟨s', hs', hsim⟩ := sim_step h (hlast e (.head _)) (hmodels e (.head _))
        (hsums [e] (by simp)) (hcontexts e (.head _))
      obtain ⟨s'', last', hs'', hsim'⟩ :=
        ih hsim horder.1 horder.2 (fun e he => hmodels e (.tail _ he))
        (fun before hbefore => hsums (e :: before) (by simpa using hbefore))
        fun e he => hcontexts e (.tail _ he)
      exact ⟨s'', last', by rw [ingestAll, hs']; exact hs'', hsim'⟩

theorem ingestAll_eq_none (h : Sim jsonbText s r c last) (hlast : ∀ e ∈ events, last < e.1)
    (horder : ByteOrder events) (hmodels : ∀ e ∈ events, ModelIsText e.2.payload)
    (hsums : ∀ before, before <+: events → (before.foldl Charges.observe c).Fit)
    (hcontexts : ¬ ContextsCounted events) : ingestAll jsonbText .codex s events = none := by
  induction events generalizing s r c last with
  | nil => exact absurd (fun e he => by cases he) hcontexts
  | cons e events ih =>
      rw [ByteOrder, List.pairwise_cons] at horder
      rw [ingestAll]
      by_cases hcontext : e.2.subtype ≠ some inheritedHistory → ContextCounted e.2.payload
      · obtain ⟨s', hs', hsim⟩ := sim_step h (hlast e (.head _)) (hmodels e (.head _))
          (hsums [e] (by simp)) hcontext
        rw [hs', Option.bind_some]
        refine ih hsim horder.1 horder.2 (fun e he => hmodels e (.tail _ he))
          (fun before hbefore => hsums (e :: before) (by simpa using hbefore)) fun hrest =>
            hcontexts ?_
        intro e' he'
        rcases List.mem_cons.mp he' with rfl | he'
        · exact hcontext
        · exact hrest e' he'
      · push Not at hcontext
        rw [ingestUsage_eq_none h (hlast e (.head _)) hcontext.1 hcontext.2, Option.bind_none]

theorem replayAll_eq (events : List SourceEvent) :
    replayAll events = events.foldl Replay.observeStored .default := by
  rw [replayAll, List.foldl_filter]
  congr 1
  funext r e
  by_cases h : e.2.subtype = some inheritedHistory <;> simp [Replay.observeStored, h]

/-- Related tables are the rows of the persisted replay. -/
theorem Sim.sameUsage (h : Sim jsonbText s r c last) {db : UsageTables} (hdb : Persisted r db) :
    SameUsage s.tables db where
  session := by
    cases htotal : r.total with
    | none => rw [(h.idle htotal).1, hdb.session_none (h.idle htotal).2.1]
    | some total =>
        obtain ⟨day, hday⟩ := h.latest total htotal
        rw [hday.session, hdb.session day hday.entry hday.max]
  daily := Table.ext fun d => (h.daily d).trans (hdb.daily d).symm
  models key := (h.models key).trans (hdb.models key).symm
  responses := h.live_responses.trans hdb.responses.symm

/-- **Live Codex usage equals its rebuild.** For every sequence of records in byte order whose
sums stay in `i64` and whose models are strings, ingest record by record and the rebuild from
the whole sequence both succeed with the same rows exactly when no `token_count` reports more
reasoning than tokens for its last call. -/
theorem live_usage_eq_rebuild_iff (jsonbText : Json → String) (events : List SourceEvent)
    (horder : ByteOrder events) (hmodels : ∀ e ∈ events, ModelIsText e.2.payload)
    (hsums : SumsFit events) :
    LiveEqualsRebuild jsonbText events ↔ ContextsCounted events := by
  obtain ⟨last, hlast⟩ : ∃ last, ∀ e ∈ events, last < e.1 := by
    cases events with
    | nil => exact ⟨0, by simp⟩
    | cons e events =>
        refine ⟨e.1 - 1, fun e' he' => ?_⟩
        rcases List.mem_cons.mp he' with rfl | he'
        · omega
        · have := (List.pairwise_cons.mp horder).1 e' he'
          omega
  have hempty : Sim jsonbText .empty .default .none last := sim_empty last
  constructor
  · rintro ⟨live, rebuilt, hlive, _⟩
    by_contra hcontexts
    rw [ingestAll_eq_none hempty hlast horder hmodels hsums hcontexts] at hlive
    cases hlive
  · intro hcontexts
    obtain ⟨live, last', hlive, hsim⟩ := ingestAll_sim hempty hlast horder hmodels hsums hcontexts
    rw [← replayAll_eq] at hsim
    obtain ⟨rebuilt, hrebuilt, hpersisted⟩ := persistReplay_eq hsim.sound
    exact ⟨live, rebuilt, hlive, hrebuilt, hsim.sameUsage hpersisted⟩

/-! ## A last call with more reasoning than tokens -/

/-- A response of five input and two output tokens. -/
def sampleResponse : SourceEvent :=
  (0, ⟨0, .obj
    [("type", .str "token_usage_record"),
      ("payload", .obj
        [("response_id", .str "r1"),
          ("usage", .obj [("input_tokens", .int 5), ("output_tokens", .int 2)])])], none⟩)

/-- A `token_count` whose last call reports five tokens in all. -/
def sampleTokenCount (reasoning : Int) : SourceEvent :=
  (10, ⟨0, .obj
    [("type", .str "event_msg"),
      ("payload", .obj
        [("type", .str "token_count"),
          ("info", .obj
            [("total_token_usage", .obj [("input_tokens", .int 5), ("output_tokens", .int 2)]),
              ("last_token_usage", .obj
                [("total_tokens", .int 5), ("reasoning_output_tokens", .int reasoning)])])])],
                  none⟩)

/-- The update of `sampleResponse`. -/
def sampleUpdate : UsageUpdate :=
  ⟨.delta, some "r1", none, .of (.of 5 0 0 0 2) 0 7, none, none⟩

theorem extract_sampleResponse :
    extractCodexUsage sampleResponse.2.payload = some sampleUpdate := by
  rfl

def sampleEvents (reasoning : Int) : List SourceEvent :=
  [sampleResponse, sampleTokenCount reasoning]

theorem sampleEvents_order (reasoning : Int) : ByteOrder (sampleEvents reasoning) := by
  simp [ByteOrder, sampleEvents, sampleResponse, sampleTokenCount]

theorem sampleEvents_models (reasoning : Int) :
    ∀ e ∈ sampleEvents reasoning, ModelIsText e.2.payload := by
  have hresponse : storedEventKind .codex sampleResponse.2.payload ≠ "turn_context" := by decide
  have hkind : storedEventKind .codex (sampleTokenCount reasoning).2.payload = "token_count" := rfl
  have htotal : storedEventKind .codex (sampleTokenCount reasoning).2.payload ≠ "turn_context" := by
    rw [hkind]
    decide
  simp only [sampleEvents, List.forall_mem_cons, List.not_mem_nil, false_implies, implies_true,
    and_true]
  exact ⟨fun h => absurd h hresponse, fun h => absurd h htotal⟩

/-- The charges of the sample session. -/
def sampleCharges : Charges where
  spend := some (0 + sampleUpdate.spend)
  responses := insert "r1" ∅
  model := none
  byModel := Function.update 0 (0, unknownModel) (0 + sampleUpdate.spend.tokens)

theorem sampleCharges_fit : sampleCharges.Fit := by
  have hspend : ∀ column, sampleUpdate.spend column ≤ i64Max := fun column =>
    (isCount_of_codex extract_sampleResponse column).2
  refine ⟨fun spend hs column => ?_, fun key column => ?_⟩
  · cases hs
    rw [zero_add]
    exact hspend column
  · simp only [sampleCharges, Function.update_apply]
    split
    · rw [zero_add]
      exact hspend (.token column)
    · exact (by decide : (0 : Int) ≤ i64Max)

theorem sampleEvents_sumsFit (reasoning : Int) : SumsFit (sampleEvents reasoning) := by
  intro before hbefore
  have hfirst : chargesOf [sampleResponse] = sampleCharges := rfl
  have hboth : chargesOf (sampleEvents reasoning) = sampleCharges := rfl
  have hnone : (chargesOf []).Fit :=
    ⟨by simp [chargesOf, Charges.none], fun _ _ => (by decide : (0 : Int) ≤ i64Max)⟩
  rw [← List.mem_inits] at hbefore
  simp only [sampleEvents, List.inits, List.map_cons, List.map_nil, List.mem_cons, List.not_mem_nil,
    or_false] at hbefore
  rcases hbefore with rfl | rfl | rfl
  · exact hnone
  · rw [hfirst]
    exact sampleCharges_fit
  · exact hboth ▸ sampleCharges_fit

/-- One of five tokens is reasoning. -/
theorem live_usage_eq_rebuild_sample : LiveEqualsRebuild (fun _ => "") (sampleEvents 1) := by
  refine (live_usage_eq_rebuild_iff (fun _ => "") (sampleEvents 1) (sampleEvents_order 1)
    (sampleEvents_models 1) (sampleEvents_sumsFit 1)).mpr ?_
  have htotal : extractCodexUsage (sampleTokenCount 1).2.payload
      = some ⟨.cumulative, none, none, .of (.of 5 0 0 0 2) 0 7, some 4, none⟩ := rfl
  simp only [ContextsCounted, sampleEvents, List.forall_mem_cons]
  exact ⟨fun _ => (contextCounted_iff extract_sampleResponse).mpr (by simp [sampleUpdate]),
    fun _ => (contextCounted_iff htotal).mpr (by simp), by simp⟩

/-- Ten of five tokens are reasoning: the record is refused. -/
theorem negative_context_refused :
    ByteOrder (sampleEvents 10) ∧ (∀ e ∈ sampleEvents 10, ModelIsText e.2.payload) ∧
      SumsFit (sampleEvents 10) ∧ (∃ e ∈ sampleEvents 10, ∃ usage,
        extractCodexUsage e.2.payload = some usage ∧ usage.mode = .delta) ∧
      ¬ LiveEqualsRebuild (fun _ => "") (sampleEvents 10) := by
  refine ⟨sampleEvents_order 10, sampleEvents_models 10, sampleEvents_sumsFit 10,
    ⟨sampleResponse, .head _, sampleUpdate, extract_sampleResponse, rfl⟩, ?_⟩
  rintro ⟨live, rebuilt, hlive, _⟩
  have hnone : ingestAll (fun _ => "") .codex .empty (sampleEvents 10) = none := by rfl
  rw [hnone] at hlive
  cases hlive

end Sulion.Usage
