import Sulion.Ingest.Events

set_option autoImplicit false

/-! # Model switches across a purge and a restore

`observe_event` keeps two baselines per session, the model of the last record and the model
the user confirmed, and records a switch row where the model moves. A purge deletes the
switch rows and the events but keeps the baselines; the restore replays the archived records
against them.

The first part models a session's records, switch rows and acknowledgements. The second
describes what a replay records (`replay_open_iff`), and the third compares that with the
rows the purge deleted (`restore_reopens_nothing_iff`).
-/

namespace Sulion.ModelSwitches

open Rust Ingest

/-! ## Observations -/

/-- Placeholder model Claude Code stamps on synthetic (error) records. -/
def claudeSyntheticModel : String := "<synthetic>"

/-- A transcript record that names the model a session is running on. -/
structure ModelObservation where
  source : String
  model : String
  effort : Option String
  turnId : Option String
  context : List (String × Json)

def nonEmpty (value : Option Json) : Option String :=
  (value.bind Json.asStr).bind fun s =>
    let text := trim s
    if text.isEmpty then none else some text

/-- `context.insert(key, text)` for each listed key with a text. -/
def insertTexts (settings : Json) (context : List (String × Json)) :
    List String → List (String × Json)
  | [] => context
  | key :: keys =>
      let context := match nonEmpty (settings.get key) with
        | some text => Json.insertField context key (.str text)
        | none => context
      insertTexts settings context keys

def codexObservation (value : Json) : Option ModelObservation := do
  let kind ← codexRecordKind value
  let payload ← value.get "payload"
  match kind with
  | "turn_context" =>
      let model ← nonEmpty (payload.get "model")
      some
        { source := "codex_turn_context"
          model := model
          effort := (nonEmpty (payload.get "effort")).or (nonEmpty (payload.get "reasoning_effort"))
          turnId := nonEmpty (payload.get "turn_id")
          context := [] }
  | "event_msg" =>
      if (payload.get "type").bind Json.asStr = some "thread_settings_applied" then
        let settings ← payload.get "thread_settings"
        let model ← nonEmpty (settings.get "model")
        some
          { source := "codex_thread_settings"
            model := model
            effort := nonEmpty (settings.get "reasoning_effort")
            turnId := none
            context := insertTexts settings [] ["service_tier", "model_provider_id"] }
      else none
  | _ => none

/-- The object `{"type": …, "model": …}` of one request iteration; absent members are null. -/
def iterationContext (iteration : Json) : Json :=
  .obj [("model", (iteration.get "model").getD .null), ("type", (iteration.get "type").getD .null)]

/-- The `fallback` block of a message. -/
def claudeFallback (message : Json) : Option Json :=
  ((message.get "content").bind Json.asArray).bind fun items =>
    items.find? fun item => (item.get "type").bind Json.asStr == some "fallback"

def claudeContext (message : Json) : List (String × Json) :=
  let context := match claudeFallback message with
    | some fallback =>
        Json.insertField [] "fallback" (.obj
          [("from", ((fallback.get "from").bind (·.get "model")).getD .null),
            ("to", ((fallback.get "to").bind (·.get "model")).getD .null)])
    | none => []
  let usage := message.get "usage"
  let context := match (usage.bind (·.get "iterations")).bind Json.asArray with
    | some iterations =>
        Json.insertField context "iterations" (.arr (iterations.map iterationContext))
    | none => context
  match usage.bind fun usage => nonEmpty (usage.get "service_tier") with
  | some tier => Json.insertField context "service_tier" (.str tier)
  | none => context

def claudeObservation (value : Json) : Option ModelObservation :=
  if (value.get "type").bind Json.asStr ≠ some "assistant" then none
  else do
    let message ← value.get "message"
    let model ← nonEmpty (message.get "model")
    if model = claudeSyntheticModel then none
    else
      some
        { source := if (claudeFallback message).isSome then "claude_fallback" else "claude_message"
          model := model
          effort := nonEmpty (value.get "effort")
          turnId := none
          context := claudeContext message }

/-- The model a record reports, if it reports one. -/
def observationFromEvent (agent : String) (value : Json) : Option ModelObservation :=
  match agent with
  | "codex" => codexObservation value
  | "claude-code" | "claude" => claudeObservation value
  | _ => none

/-! ## A session's records, switch rows and baselines -/

/-- A row of `agent_model_switches`, under its byte offset. -/
structure ModelSwitch where
  observedAt : Timestamp
  source : String
  fromModel : Option String
  toModel : String
  fromEffort : Option String
  toEffort : Option String
  turnId : Option String
  turnInFlight : Bool
  enforced : Bool
  context : List (String × Json)
  acknowledgedAt : Option Timestamp
  adopted : Option Bool

/-- What the database and the object store hold of one session: its baselines in
`agent_session_metadata`, its switch rows, its events and the lines of its archive object. -/
structure Session where
  observedModel : Option String
  observedEffort : Option String
  confirmedModel : Option String
  switches : Table Int ModelSwitch
  events : EventTable
  archived : List (Int × EventRow)

/-- A session before its first record. -/
def Session.new : Session := ⟨none, none, none, ∅, ∅, []⟩

def writeBaseline (s : Session) (observedModel : String) (observedEffort : Option String)
    (confirmedModel : String) : Session :=
  { s with
    observedModel := some observedModel
    observedEffort := observedEffort
    confirmedModel := s.confirmedModel.or (some confirmedModel) }

/-- Whether a turn was underway at `byteOffset`, and which one. -/
def turnState (source : TranscriptSource) (s : Session) (observation : ModelObservation)
    (byteOffset : Int) : Bool × Option String :=
  if observation.source ≠ "codex_thread_settings" then (true, observation.turnId)
  else
    let bracket := ["task_started", "task_complete", "turn_started", "turn_complete",
      "turn_aborted"]
    match lastEventBefore s.events byteOffset fun e =>
      storedEventKind source e.payload ∈ bracket with
    | some (_, e) =>
        if storedEventKind source e.payload ∈ ["task_started", "turn_started"] then
          (true, e.payload.stringAt ["payload", "turn_id"])
        else (false, none)
    | none => (false, none)

/-- The rate limits Codex last reported before `byteOffset`. A report without the member is a
SQL null, which the query's result type cannot hold: the outer `none` is that error. -/
def lastRateLimits (source : TranscriptSource) (events : EventTable) (byteOffset : Int) :
    Option (Option Json) :=
  match lastEventBefore events byteOffset fun e =>
      storedEventKind source e.payload == "token_count" with
  | none => some none
  | some (_, e) =>
      (e.payload.at? ["payload", "rate_limits"]).map fun limits =>
        if limits.isObject then some limits else none

/-- What the transcript held near the switch; `none` when reading it fails. -/
def switchContext (source : TranscriptSource) (events : EventTable)
    (observation : ModelObservation) (byteOffset : Int) : Option (List (String × Json)) :=
  match source with
  | .claudeCode => some observation.context
  | .codex => (lastRateLimits source events byteOffset).map fun
      | some limits => Json.insertField observation.context "rate_limits" limits
      | none => observation.context

/-- `observe_event`, which its caller runs best effort: an error leaves the state alone. -/
def observeEvent (source : TranscriptSource) (s : Session) (value : Json) (byteOffset : Int)
    (observedAt : Timestamp) : Session :=
  match observationFromEvent source.agentId value with
  | none => s
  | some observation =>
      match s.observedModel.filter (fun model => !model.isEmpty) with
      | none => writeBaseline s observation.model observation.effort observation.model
      | some previousModel =>
          if previousModel = observation.model then
            if s.observedEffort ≠ observation.effort then
              writeBaseline s observation.model observation.effort previousModel
            else s
          else
            let confirmedModel := s.confirmedModel.getD previousModel
            let (turnInFlight, turnId) := turnState source s observation byteOffset
            match switchContext source s.events observation byteOffset with
            | none => s
            | some context =>
                let row : ModelSwitch :=
                  { observedAt := observedAt
                    source := observation.source
                    fromModel := some previousModel
                    toModel := observation.model
                    fromEffort := s.observedEffort
                    toEffort := observation.effort
                    turnId := turnId
                    turnInFlight := turnInFlight
                    enforced := decide (observation.model ≠ confirmedModel)
                    context := context
                    acknowledgedAt := none
                    adopted := none }
                writeBaseline { s with switches := s.switches.insertIfNew byteOffset row }
                  observation.model observation.effort confirmedModel

/-- `insert_event` on this state: a stored offset is skipped, an inherited record is stored
and not observed. -/
def insertEvent (source : TranscriptSource) (s : Session) (byteOffset : Int) (row : EventRow) :
    Session :=
  if (s.events[byteOffset]?).isSome then s
  else
    let s := { s with events := s.events.insert byteOffset row }
    if row.subtype = some inheritedHistory then s
    else observeEvent source s row.payload byteOffset row.timestamp

/-- Close the open switch at `byteOffset`; `adopt` confirms its model and answers the other
open switches onto it. -/
def acknowledge (s : Session) (byteOffset : Int) (adopt : Bool) (now : Timestamp) : Session :=
  match s.switches[byteOffset]? with
  | none => s
  | some row =>
      if row.acknowledgedAt.isSome then s
      else
        let closed := s.switches.insert byteOffset
          { row with acknowledgedAt := some now, adopted := some adopt }
        if adopt then
          { s with
            confirmedModel := some row.toModel
            switches := closed.map fun _ other =>
              if other.toModel = row.toModel ∧ other.acknowledgedAt = none then
                { other with acknowledgedAt := some now, adopted := some true }
              else other }
        else { s with switches := closed }

/-- `purge_session` on this state. It refuses a session whose recorded object does not hold
its events. -/
def purgeSession (s : Session) : Session :=
  { s with switches := ∅, events := ∅, archived := s.events.toList }

def withdrawAndClear (s : Session) : Session := { s with switches := ∅, events := ∅ }

/-- `replay_session_lines` on this state. -/
def replaySessionLines (source : TranscriptSource) (s : Session) (lines : List (Int × EventRow)) :
    Session :=
  lines.foldl (fun s line => insertEvent source s line.1 line.2) s

def restoreSession (source : TranscriptSource) (s : Session) : Session :=
  replaySessionLines source (withdrawAndClear s) s.archived

/-- What happens to a session before it is purged. -/
inductive HistoryStep
  | ingest (byteOffset : Int) (row : EventRow)
  | acknowledge (byteOffset : Int) (adopt : Bool) (now : Timestamp)

def historyStep (source : TranscriptSource) (s : Session) : HistoryStep → Session
  | .ingest byteOffset row => insertEvent source s byteOffset row
  | .acknowledge byteOffset adopt now => acknowledge s byteOffset adopt now

/-- The session after a history. -/
def afterHistory (source : TranscriptSource) (history : List HistoryStep) : Session :=
  history.foldl (historyStep source) .new

/-! ## What a replay records -/

/-- A switch at this offset is enforced and unacknowledged. -/
def Session.OpenEnforced (s : Session) (byteOffset : Int) : Prop :=
  ∃ row, s.switches[byteOffset]? = some row ∧ row.enforced = true ∧ row.acknowledgedAt = none

/-- The session runs on `observed` and its user confirmed `confirmed`. -/
structure Session.HasBaseline (s : Session) (observed confirmed : String) : Prop where
  observedModel : s.observedModel = some observed
  nonempty : observed ≠ ""
  confirmedModel : s.confirmedModel = some confirmed

/-- The model a stored record reports to `observe_event`. -/
def recordModel (source : TranscriptSource) (row : EventRow) : Option String :=
  if row.subtype = some inheritedHistory then none
  else (observationFromEvent source.agentId row.payload).map (·.model)

/-- Recording a switch at this offset fails, because the last token report before it has no
rate limits. -/
def Unreadable (source : TranscriptSource) (events : EventTable) (byteOffset : Int) : Prop :=
  source = .codex ∧ (lastRateLimits source events byteOffset).isNone

instance (source : TranscriptSource) (events : EventTable) (byteOffset : Int) :
    Decidable (Unreadable source events byteOffset) :=
  inferInstanceAs (Decidable (_ ∧ _))

/-- The records among `lines` that move the model, walking from `previous`, each with the
model it moves to. -/
def modelChanges (source : TranscriptSource) (events : EventTable) :
    String → List (Int × EventRow) → List (Int × String)
  | _, [] => []
  | previous, (byteOffset, row) :: rest =>
      match recordModel source row with
      | none => modelChanges source events previous rest
      | some model =>
          if model = previous ∨ Unreadable source events byteOffset then
            modelChanges source events previous rest
          else (byteOffset, model) :: modelChanges source events model rest

theorem nonEmpty_ne_empty {value : Option Json} {text : String} (h : nonEmpty value = some text) :
    text ≠ "" := by
  obtain ⟨s, _, hs⟩ := Option.bind_eq_some_iff.mp h
  simp only at hs
  split at hs
  · cases hs
  · rename_i hne
    cases hs
    simpa using hne

theorem codexObservation_model_ne_empty {value : Json} {o : ModelObservation}
    (h : codexObservation value = some o) : o.model ≠ "" := by
  simp only [codexObservation, Option.bind_eq_bind, Option.bind_eq_some_iff] at h
  obtain ⟨kind, _, payload, _, h⟩ := h
  split at h
  · obtain ⟨model, hmodel, h⟩ := Option.bind_eq_some_iff.mp h
    cases h
    exact nonEmpty_ne_empty hmodel
  · split at h
    · obtain ⟨settings, _, h⟩ := Option.bind_eq_some_iff.mp h
      obtain ⟨model, hmodel, h⟩ := Option.bind_eq_some_iff.mp h
      cases h
      exact nonEmpty_ne_empty hmodel
    · cases h
  · cases h

theorem claudeObservation_model_ne_empty {value : Json} {o : ModelObservation}
    (h : claudeObservation value = some o) : o.model ≠ "" := by
  unfold claudeObservation at h
  split at h
  · cases h
  · obtain ⟨message, _, h⟩ := Option.bind_eq_some_iff.mp h
    obtain ⟨model, hmodel, h⟩ := Option.bind_eq_some_iff.mp h
    split at h
    · cases h
    · cases h
      exact nonEmpty_ne_empty hmodel

theorem observation_model_ne_empty {source : TranscriptSource} {value : Json}
    {o : ModelObservation} (h : observationFromEvent source.agentId value = some o) :
    o.model ≠ "" := by
  cases source with
  | codex => exact codexObservation_model_ne_empty h
  | claudeCode => exact claudeObservation_model_ne_empty h

theorem hasBaseline_writeBaseline {s : Session} {confirmed : String}
    (hc : s.confirmedModel = some confirmed) {m : String} (hm : m ≠ "") (e : Option String)
    (c : String) : (writeBaseline s m e c).HasBaseline m confirmed :=
  ⟨rfl, hm, by simp [writeBaseline, hc]⟩

theorem Session.HasBaseline.of_eq {s t : Session} {observed confirmed : String}
    (hb : s.HasBaseline observed confirmed) (ho : t.observedModel = s.observedModel)
    (hc : t.confirmedModel = s.confirmedModel) : t.HasBaseline observed confirmed :=
  ⟨ho.trans hb.observedModel, hb.nonempty, hc.trans hb.confirmedModel⟩

theorem observeEvent_events (source : TranscriptSource) (s : Session) (value : Json)
    (byteOffset : Int) (at_ : Timestamp) :
    (observeEvent source s value byteOffset at_).events = s.events := by
  unfold observeEvent
  split
  · rfl
  · split
    · rfl
    · split
      · split <;> rfl
      · dsimp only
        split <;> rfl

/-- A record on the observed model, or one whose context cannot be read, moves nothing. -/
theorem observeEvent_stays {source : TranscriptSource} {s : Session} {observed confirmed : String}
    (hb : s.HasBaseline observed confirmed) {value : Json} {byteOffset : Int} {at_ : Timestamp}
    (h : ∀ o, observationFromEvent source.agentId value = some o →
      o.model = observed ∨ Unreadable source s.events byteOffset) :
    (observeEvent source s value byteOffset at_).switches = s.switches ∧
      (observeEvent source s value byteOffset at_).HasBaseline observed confirmed := by
  unfold observeEvent
  split
  · exact ⟨rfl, hb⟩
  · rename_i o ho
    have hfilter : s.observedModel.filter (fun model => !model.isEmpty) = some observed := by
      simp [hb.observedModel, Option.filter, hb.nonempty]
    rw [hfilter]
    dsimp only
    by_cases hsame : observed = o.model
    · rw [if_pos hsame]
      split
      · exact ⟨rfl, hsame ▸ hasBaseline_writeBaseline hb.confirmedModel hb.nonempty _ _⟩
      · exact ⟨rfl, hb⟩
    · rw [if_neg hsame]
      obtain ⟨rfl, hnone⟩ := (h o ho).resolve_left fun he => hsame he.symm
      rw [Option.isNone_iff_eq_none] at hnone
      simp only [switchContext, hnone, Option.map_none]
      exact ⟨trivial, hb⟩

/-- A record that moves the model inserts a switch row, enforced when the model is not the
confirmed one. -/
theorem observeEvent_moves {source : TranscriptSource} {s : Session} {observed confirmed : String}
    (hb : s.HasBaseline observed confirmed) {value : Json} {byteOffset : Int} {at_ : Timestamp}
    {o : ModelObservation} (ho : observationFromEvent source.agentId value = some o)
    (hne : o.model ≠ observed) (hr : ¬ Unreadable source s.events byteOffset) :
    ∃ row : ModelSwitch,
      (observeEvent source s value byteOffset at_).switches
          = s.switches.insertIfNew byteOffset row ∧ row.toModel = o.model ∧
        row.enforced = decide (o.model ≠ confirmed) ∧ row.acknowledgedAt = none ∧
        (observeEvent source s value byteOffset at_).HasBaseline o.model confirmed := by
  have hfilter : s.observedModel.filter (fun model => !model.isEmpty) = some observed := by
    simp [hb.observedModel, Option.filter, hb.nonempty]
  obtain ⟨context, hcontext⟩ :
      ∃ context, switchContext source s.events o byteOffset = some context := by
    cases source with
    | claudeCode => exact ⟨_, rfl⟩
    | codex =>
        cases hl : lastRateLimits .codex s.events byteOffset with
        | none => exact absurd ⟨rfl, by rw [hl]; rfl⟩ hr
        | some limits => exact ⟨_, by rw [switchContext, hl]; rfl⟩
  have hconf : s.confirmedModel.getD observed = confirmed := by rw [hb.confirmedModel]; rfl
  unfold observeEvent
  rw [ho]
  dsimp only
  rw [hfilter]
  dsimp only
  rw [if_neg fun h => hne h.symm, hcontext, hconf]
  refine ⟨_, rfl, rfl, rfl, rfl, ?_⟩
  refine hasBaseline_writeBaseline ?_ (observation_model_ne_empty ho) _ _
  exact hb.confirmedModel

/-! ### One replayed line -/

theorem insertEvent_events {source : TranscriptSource} {s : Session} {byteOffset : Int}
    {row : EventRow} (hfresh : s.events[byteOffset]? = none) :
    (insertEvent source s byteOffset row).events = s.events.insert byteOffset row := by
  unfold insertEvent
  rw [hfresh, if_neg (by simp)]
  dsimp only
  split
  · rfl
  · exact observeEvent_events ..

theorem insertEvent_stays {source : TranscriptSource} {s : Session} {observed confirmed : String}
    (hb : s.HasBaseline observed confirmed) {byteOffset : Int} {row : EventRow}
    (hfresh : s.events[byteOffset]? = none)
    (h : ∀ m, recordModel source row = some m →
      m = observed ∨ Unreadable source (s.events.insert byteOffset row) byteOffset) :
    (insertEvent source s byteOffset row).switches = s.switches ∧
      (insertEvent source s byteOffset row).HasBaseline observed confirmed := by
  unfold insertEvent
  rw [hfresh, if_neg (by simp)]
  dsimp only
  split
  · exact ⟨rfl, hb.of_eq rfl rfl⟩
  · rename_i hsub
    refine observeEvent_stays (s := { s with events := s.events.insert byteOffset row })
      (hb.of_eq rfl rfl) fun o ho => h o.model ?_
    rw [recordModel, if_neg hsub, ho]
    rfl

theorem insertEvent_moves {source : TranscriptSource} {s : Session} {observed confirmed : String}
    (hb : s.HasBaseline observed confirmed) {byteOffset : Int} {row : EventRow}
    (hfresh : s.events[byteOffset]? = none) {m : String} (hm : recordModel source row = some m)
    (hne : m ≠ observed) (hr : ¬ Unreadable source (s.events.insert byteOffset row) byteOffset) :
    ∃ sw : ModelSwitch,
      (insertEvent source s byteOffset row).switches = s.switches.insertIfNew byteOffset sw ∧
        sw.toModel = m ∧ sw.enforced = decide (m ≠ confirmed) ∧ sw.acknowledgedAt = none ∧
        (insertEvent source s byteOffset row).HasBaseline m confirmed := by
  unfold recordModel at hm
  split at hm
  · cases hm
  · rename_i hsub
    obtain ⟨o, ho, rfl⟩ := Option.map_eq_some_iff.mp hm
    unfold insertEvent
    rw [hfresh, if_neg (by simp), if_neg hsub]
    exact observeEvent_moves (s := { s with events := s.events.insert byteOffset row })
      (hb.of_eq rfl rfl) ho hne hr

/-! ### The whole replay -/

/-- What the query before an offset finds depends on the rows before that offset only. -/
theorem lastEventBefore_congr {events events' : EventTable} {byteOffset : Int}
    (h : ∀ k < byteOffset, events[k]? = events'[k]?) (p : EventRow → Bool) :
    lastEventBefore events byteOffset p = lastEventBefore events' byteOffset p := by
  have hfilter : events.filter (fun k _ => decide (k < byteOffset))
      = events'.filter fun k _ => decide (k < byteOffset) := by
    refine Table.ext fun k => ?_
    by_cases hk : k < byteOffset
    · simp [hk, h k hk]
    · simp [hk]
  have hfind : ∀ t : EventTable, lastEventBefore t byteOffset p
      = (t.filter fun k _ => decide (k < byteOffset)).toList.reverse.find? fun row => p row.2 := by
    intro t
    rw [Std.ExtTreeMap.toList_filter, ← List.filter_reverse, List.find?_filter]
    simp [lastEventBefore]
  rw [hfind, hfind, hfilter]

theorem unreadable_congr {source : TranscriptSource} {events events' : EventTable}
    {byteOffset : Int} (h : ∀ k < byteOffset, events[k]? = events'[k]?) :
    Unreadable source events byteOffset ↔ Unreadable source events' byteOffset := by
  simp only [Unreadable, lastRateLimits, lastEventBefore_congr h]

theorem openEnforced_insertIfNew {s t : Session} {byteOffset : Int} {sw : ModelSwitch}
    (hfresh : s.switches[byteOffset]? = none)
    (ht : t.switches = s.switches.insertIfNew byteOffset sw) (hack : sw.acknowledgedAt = none)
    (k : Int) :
    t.OpenEnforced k ↔ s.OpenEnforced k ∨ (k = byteOffset ∧ sw.enforced = true) := by
  have hmem : byteOffset ∉ s.switches := by
    rw [Std.ExtTreeMap.mem_iff_isSome_getElem?, hfresh]
    simp
  unfold Session.OpenEnforced
  rw [ht, Std.ExtTreeMap.getElem?_insertIfNew]
  by_cases hk : byteOffset = k
  · subst hk
    simp [hmem, hack]
  · simp [hk, Ne.symm hk]

/-- The replay of `full` has come to the rows `rest`: the session holds the other rows, and
nothing yet at the offsets to come. -/
structure Replaying (full : EventTable) (rest : List (Int × EventRow)) (s : Session) : Prop where
  sorted : rest.Pairwise fun a b => a.1 < b.1
  mem_full : ∀ line ∈ rest, full[line.1]? = some line.2
  events_fresh : ∀ line ∈ rest, s.events[line.1]? = none
  switches_fresh : ∀ line ∈ rest, s.switches[line.1]? = none
  done : ∀ k, (∀ line ∈ rest, line.1 ≠ k) → s.events[k]? = full[k]?

section Replaying

variable {full : EventTable} {rest : List (Int × EventRow)} {s s' : Session} {byteOffset : Int}
  {row : EventRow}

theorem Replaying.next (h : Replaying full ((byteOffset, row) :: rest) s)
    (hev : s'.events = s.events.insert byteOffset row)
    (hsw : ∀ k, k ≠ byteOffset → s'.switches[k]? = s.switches[k]?) : Replaying full rest s' := by
  obtain ⟨hlt, hsorted⟩ := List.pairwise_cons.mp h.sorted
  have hne : ∀ line ∈ rest, byteOffset ≠ line.1 := fun line hline => ne_of_lt (hlt line hline)
  refine ⟨hsorted, fun line hline => ?_, fun line hline => ?_, fun line hline => ?_, fun k hk => ?_⟩
  · exact h.mem_full line (by simp [hline])
  · rw [hev, Table.lookup_insert_ne _ _ (hne line hline)]
    exact h.events_fresh line (by simp [hline])
  · rw [hsw _ (hne line hline).symm]
    exact h.switches_fresh line (by simp [hline])
  · rw [hev, Table.lookup_insert]
    split
    · rename_i hk0
      rw [← hk0]
      exact (h.mem_full (byteOffset, row) (by simp)).symm
    · rename_i hk0
      refine h.done k fun line hline => ?_
      rcases List.mem_cons.mp hline with rfl | hline
      · exact hk0
      · exact hk line hline

theorem Replaying.unreadable_iff (h : Replaying full ((byteOffset, row) :: rest) s)
    (source : TranscriptSource) :
    Unreadable source (s.events.insert byteOffset row) byteOffset
      ↔ Unreadable source full byteOffset := by
  refine unreadable_congr fun k hk => ?_
  rw [Table.lookup_insert_ne _ _ (ne_of_gt hk)]
  refine h.done k fun line hline => ?_
  rcases List.mem_cons.mp hline with rfl | hline
  · exact ne_of_gt hk
  · have := (List.pairwise_cons.mp h.sorted).1 line hline
    exact ne_of_gt (hk.trans this)

end Replaying

/-- **What a replay leaves open.** Replaying the rows `rest` of `full` adds an open enforced
switch at exactly those records of `rest` that move the model to one other than the
confirmed model. -/
theorem replay_open_iff {source : TranscriptSource} {full : EventTable} {confirmed : String}
    (rest : List (Int × EventRow)) {s : Session} {observed : String}
    (hb : s.HasBaseline observed confirmed) (h : Replaying full rest s) (k : Int) :
    (replaySessionLines source s rest).OpenEnforced k ↔
      s.OpenEnforced k ∨ ∃ m, (k, m) ∈ modelChanges source full observed rest ∧ m ≠ confirmed := by
  induction rest generalizing s observed with
  | nil => simp [replaySessionLines, modelChanges]
  | cons line rest ih =>
      obtain ⟨byteOffset, row⟩ := line
      have hev : s.events[byteOffset]? = none := h.events_fresh (byteOffset, row) (by simp)
      have hsw : s.switches[byteOffset]? = none := h.switches_fresh (byteOffset, row) (by simp)
      have hread := h.unreadable_iff source
      show (replaySessionLines source (insertEvent source s byteOffset row) rest).OpenEnforced k ↔ _
      by_cases hstay : ∀ m, recordModel source row = some m →
          m = observed ∨ Unreadable source full byteOffset
      · obtain ⟨hsame, hb'⟩ := insertEvent_stays hb hev fun m hm => (hstay m hm).imp_right hread.mpr
        have hskip : modelChanges source full observed ((byteOffset, row) :: rest)
            = modelChanges source full observed rest := by
          rw [modelChanges]
          cases hm : recordModel source row with
          | none => rfl
          | some m => exact if_pos (hstay m hm)
        rw [ih hb' (h.next (insertEvent_events hev) fun k _ => by rw [hsame]), hskip]
        simp only [Session.OpenEnforced, hsame]
      · simp only [not_forall, not_or] at hstay
        obtain ⟨m, hm, hne, hr⟩ := hstay
        obtain ⟨sw, hins, -, henf, hack, hb'⟩ :=
          insertEvent_moves hb hev hm hne fun hu => hr (hread.mp hu)
        have hother : ∀ k, k ≠ byteOffset →
            (insertEvent source s byteOffset row).switches[k]? = s.switches[k]? := by
          intro k hk
          rw [hins, Std.ExtTreeMap.getElem?_insertIfNew, if_neg (by simp [Ne.symm hk])]
        rw [ih hb' (h.next (insertEvent_events hev) hother),
          openEnforced_insertIfNew hsw hins hack, modelChanges, hm]
        simp only [hne, hr, or_self, if_false, henf, decide_eq_true_eq, List.mem_cons,
          Prod.mk.injEq]
        constructor
        · rintro ((hopen | ⟨rfl, hc⟩) | ⟨m', hrest, hc⟩)
          · exact .inl hopen
          · exact .inr ⟨m, .inl ⟨rfl, rfl⟩, hc⟩
          · exact .inr ⟨m', .inr hrest, hc⟩
        · rintro (hopen | ⟨m', ⟨rfl, rfl⟩ | hrest, hc⟩)
          · exact .inl (.inl hopen)
          · exact .inl (.inr ⟨rfl, hc⟩)
          · exact .inr ⟨m', hrest, hc⟩

/-! ## The replay against the rows the purge deleted -/

/-- A session has a baseline as soon as one of its records reported a model. -/
def Session.Baselined (source : TranscriptSource) (s : Session) : Prop :=
  (∃ observed confirmed, s.HasBaseline observed confirmed) ∨
    (s.observedModel = none ∧ ∀ (k : Int) row, s.events[k]? = some row →
      recordModel source row = none)

theorem insertEvent_noModel {source : TranscriptSource} {s : Session} {byteOffset : Int}
    {row : EventRow} (hfresh : s.events[byteOffset]? = none) (hm : recordModel source row = none) :
    insertEvent source s byteOffset row
      = { s with events := s.events.insert byteOffset row } := by
  unfold insertEvent
  rw [hfresh, if_neg (by simp)]
  dsimp only
  split
  · rfl
  · rename_i hsub
    rw [recordModel, if_neg hsub, Option.map_eq_none_iff] at hm
    simp only [observeEvent, hm]

theorem insertEvent_firstModel {source : TranscriptSource} {s : Session} {byteOffset : Int}
    {row : EventRow} (hfresh : s.events[byteOffset]? = none) (hobs : s.observedModel = none)
    {m : String} (hm : recordModel source row = some m) :
    (insertEvent source s byteOffset row).switches = s.switches ∧
      (insertEvent source s byteOffset row).HasBaseline m (s.confirmedModel.getD m) := by
  unfold recordModel at hm
  split at hm
  · cases hm
  · rename_i hsub
    obtain ⟨o, ho, rfl⟩ := Option.map_eq_some_iff.mp hm
    unfold insertEvent
    rw [hfresh, if_neg (by simp), if_neg hsub]
    refine ⟨?_, ?_, observation_model_ne_empty ho, ?_⟩
    · simp only [observeEvent, ho, hobs, Option.filter_none]
      rfl
    · simp only [observeEvent, ho, hobs, Option.filter_none]
      rfl
    · simp only [observeEvent, ho, hobs, Option.filter_none, writeBaseline]
      cases s.confirmedModel <;> rfl

theorem baselined_insertEvent {source : TranscriptSource} {s : Session} (hs : s.Baselined source)
    (byteOffset : Int) (row : EventRow) :
      (insertEvent source s byteOffset row).Baselined source := by
  cases hev : s.events[byteOffset]? with
  | some old =>
      have hskip : insertEvent source s byteOffset row = s := by simp [insertEvent, hev]
      rw [hskip]
      exact hs
  | none =>
      rcases hs with ⟨observed, confirmed, hb⟩ | ⟨hobs, hnone⟩
      · left
        by_cases hstay : ∀ m, recordModel source row = some m →
            m = observed ∨ Unreadable source (s.events.insert byteOffset row) byteOffset
        · exact ⟨observed, confirmed, (insertEvent_stays hb hev hstay).2⟩
        · simp only [not_forall, not_or] at hstay
          obtain ⟨m, hm, hne, hr⟩ := hstay
          obtain ⟨_, _, _, _, _, hb'⟩ := insertEvent_moves hb hev hm hne hr
          exact ⟨m, confirmed, hb'⟩
      · cases hm : recordModel source row with
        | none =>
            rw [insertEvent_noModel hev hm]
            refine .inr ⟨hobs, fun k other hk => ?_⟩
            rw [Table.lookup_insert] at hk
            split at hk
            · cases hk
              exact hm
            · exact hnone k other hk
        | some m =>
            exact .inl ⟨m, _, (insertEvent_firstModel hev hobs hm).2⟩

theorem baselined_acknowledge {source : TranscriptSource} {s : Session} (hs : s.Baselined source)
    (byteOffset : Int) (adopt : Bool) (now : Timestamp) :
    (acknowledge s byteOffset adopt now).Baselined source := by
  unfold acknowledge
  split
  · exact hs
  · split
    · exact hs
    · rcases hs with ⟨observed, confirmed, hb⟩ | hnone
      · left
        split
        · exact ⟨observed, _, hb.observedModel, hb.nonempty, rfl⟩
        · exact ⟨observed, confirmed, hb.of_eq rfl rfl⟩
      · right
        split <;> exact hnone

theorem baselined_afterHistory (source : TranscriptSource) (history : List HistoryStep) :
    (afterHistory source history).Baselined source := by
  have hrun : ∀ (history : List HistoryStep) (s : Session), s.Baselined source →
      (history.foldl (historyStep source) s).Baselined source := by
    intro history
    induction history with
    | nil => exact fun s hs => hs
    | cons step history ih =>
        intro s hs
        refine ih _ ?_
        cases step with
        | ingest byteOffset row => exact baselined_insertEvent hs byteOffset row
        | acknowledge byteOffset adopt now => exact baselined_acknowledge hs byteOffset adopt now
  exact hrun history .new (.inr ⟨rfl, fun k row hk => by simp [Session.new] at hk⟩)

/-- The rows a purge deletes answer for every record at which the replay will move the model
away from the confirmed one: walking the records in byte order from the session's observed
model, each such record still has its enforced, unacknowledged switch. -/
def Session.ChangesStillOpen (source : TranscriptSource) (s : Session) : Prop :=
  ∀ observed confirmed, s.observedModel = some observed → s.confirmedModel = some confirmed →
    ∀ change ∈ modelChanges source s.events observed s.events.toList,
      change.2 = confirmed ∨ s.OpenEnforced change.1

theorem replaying_start (s : Session) :
    Replaying s.events s.events.toList (withdrawAndClear (purgeSession s)) where
  sorted := by
    refine (Std.ExtTreeMap.ordered_keys_toList (t := s.events)).imp fun {a b} h => ?_
    exact compare_lt_iff_lt.mp h
  mem_full line hline := Std.ExtTreeMap.mem_toList_iff_getElem?_eq_some.mp hline
  events_fresh line _ := by simp [withdrawAndClear]
  switches_fresh line _ := by simp [withdrawAndClear]
  done k hk := by
    cases hev : s.events[k]? with
    | none => simp [withdrawAndClear]
    | some row =>
        have hmem := Std.ExtTreeMap.mem_toList_iff_getElem?_eq_some.mpr hev
        exact absurd rfl (hk (k, row) hmem)

/-- Without a model in any record a replay records no switch. -/
theorem replay_noModel {source : TranscriptSource} (lines : List (Int × EventRow)) (s : Session)
    (h : ∀ line ∈ lines, recordModel source line.2 = none) :
    (replaySessionLines source s lines).switches = s.switches := by
  induction lines generalizing s with
  | nil => rfl
  | cons line lines ih =>
      refine (ih _ fun line hline => h line (by simp [hline])).trans ?_
      cases hev : s.events[line.1]? with
      | some old => simp [insertEvent, hev]
      | none => simp [insertEvent_noModel hev (h line (by simp))]

theorem reopens_nothing_iff {source : TranscriptSource} {s : Session} (hs : s.Baselined source) :
    (∀ k, (restoreSession source (purgeSession s)).OpenEnforced k → s.OpenEnforced k) ↔
      s.ChangesStillOpen source := by
  have hempty : ∀ k, ¬ (withdrawAndClear (purgeSession s)).OpenEnforced k := by
    rintro k ⟨row, hrow, _⟩
    simp [withdrawAndClear] at hrow
  rcases hs with ⟨observed, confirmed, hb⟩ | ⟨hobs, hnone⟩
  · have hb' : (withdrawAndClear (purgeSession s)).HasBaseline observed confirmed :=
      hb.of_eq rfl rfl
    have hopen : ∀ k, (restoreSession source (purgeSession s)).OpenEnforced k ↔
        ∃ m, (k, m) ∈ modelChanges source s.events observed s.events.toList ∧ m ≠ confirmed := by
      intro k
      refine (replay_open_iff _ hb' (replaying_start s) k).trans ?_
      simp [hempty k]
    constructor
    · intro h observed' confirmed' hobs hconf change hmem
      cases hb.observedModel.symm.trans hobs
      cases hb.confirmedModel.symm.trans hconf
      exact or_iff_not_imp_left.mpr fun hne => h _ ((hopen _).mpr ⟨change.2, hmem, hne⟩)
    · intro h k hk
      obtain ⟨m, hmem, hne⟩ := (hopen k).mp hk
      exact (h observed confirmed hb.observedModel hb.confirmedModel (k, m) hmem).resolve_left hne
  · refine iff_of_true (fun k hk => ?_) fun observed _ hobs' => ?_
    · have hsw : (restoreSession source (purgeSession s)).switches = ∅ := by
        refine replay_noModel _ _ fun line hline => ?_
        exact hnone line.1 line.2 (Std.ExtTreeMap.mem_toList_iff_getElem?_eq_some.mp hline)
      obtain ⟨row, hrow, _⟩ := hk
      simp [hsw] at hrow
    · rw [hobs] at hobs'
      cases hobs'

/-- **When a restore re-opens nothing.** After every history of records and acknowledgements,
purging and restoring the session leaves no enforced, unacknowledged switch that was not one
before the purge, exactly when the changes the replay will see are all still open. -/
theorem restore_reopens_nothing_iff (source : TranscriptSource) (history : List HistoryStep) :
    (∀ k, (restoreSession source (purgeSession (afterHistory source history))).OpenEnforced k →
      (afterHistory source history).OpenEnforced k) ↔
    (afterHistory source history).ChangesStillOpen source :=
  reopens_nothing_iff (baselined_afterHistory source history)

/-- A Codex `turn_context` record naming a model. -/
def turnContext (model : String) : EventRow where
  timestamp := 0
  payload := .obj [("payload", .obj [("model", .str model)]), ("type", .str "turn_context")]
  subtype := none

/-- The session starts on one model, moves to a second, and the user adopts it. -/
def adoptedHistory : List HistoryStep :=
  [.ingest 0 (turnContext "gpt-5"), .ingest 90 (turnContext "gpt-6"), .acknowledge 90 true 7]

/-- The replay starts from the adopted model, so the first record is recorded as an enforced
switch back to the launch model. -/
theorem adoptedHistory_reopens :
    ¬ ∀ k,
      (restoreSession .codex (purgeSession (afterHistory .codex adoptedHistory))).OpenEnforced k
      → (afterHistory .codex adoptedHistory).OpenEnforced k := by
  intro h
  have hreopened : (restoreSession .codex
      (purgeSession (afterHistory .codex adoptedHistory))).OpenEnforced 0 :=
    ⟨_, rfl, by decide, by decide⟩
  obtain ⟨row, hrow, _⟩ := h 0 hreopened
  have hnone : (afterHistory .codex adoptedHistory).switches[(0 : Int)]? = none := rfl
  rw [hnone] at hrow
  cases hrow

end Sulion.ModelSwitches
