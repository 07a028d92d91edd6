import Sulion.Lib.Transition
import Sulion.Ingest.Events

set_option autoImplicit false

/-! # What an agent is doing

Each PTY session has at most one activity record. The ingester derives records from transcript
lines (`claudeTransition`, `codexTransition`), the agent reports its own, and prompts and the
launcher write some too. The upsert keeps an agent's `needs_input` or `blocked` against an
`awaiting_prompt`, and against nothing else.

`attention_sticks` is what follows for every run: the agent's report stands as long as no
derived record other than `awaiting_prompt` reaches it. A tool result is such a record, and the
agent's own report is followed by one (`toolResult_releases_report`).
-/

namespace Sulion.Activity

open Rust Ingest Transition

/-! ## Records -/

inductive ActivityState
  | working
  | awaitingPrompt
  | needsInput
  | blocked
  | unknown
  deriving DecidableEq, Repr

/-- The sources `validate_source` admits. -/
inductive Source
  | launcher
  | hook
  | ingester
  | agent
  | user
  deriving DecidableEq, Repr

/-- The confidences `validate_confidence` admits. -/
inductive Confidence
  | explicit
  | derived
  | unknown
  deriving DecidableEq, Repr

/-- A row of `session_activity_state`. -/
structure ActivityRecord where
  state : ActivityState
  summary : Option String
  reason : Option String
  source : Source
  confidence : Confidence
  updatedAt : Timestamp

/-- Trimmed, cut to `maxChars` characters, and nothing instead of an empty text. -/
def cleanOptional (value : Option String) (maxChars : Nat) : Option String :=
  value.bind fun text =>
    let text := trim text
    if text.isEmpty then none else some (takeChars text maxChars)

/-- The `agent_runtime_state`s that matter here. -/
inductive RuntimeState
  | none
  | starting
  | running
  | exited
  deriving DecidableEq, Repr

/-- A row of `pty_sessions` with its activity record. -/
structure Pty where
  live : Bool
  runtimeAgent : Option String
  runtime : RuntimeState
  currentSession : Option Uuid
  record : Option ActivityRecord

/-- The `WHERE NOT (…)` of the upsert: an agent's attention state is kept against a
turn that ended. -/
def keepsAttention (row excluded : ActivityRecord) : Bool :=
  decide (row.source = .agent) && decide (row.state = .needsInput ∨ row.state = .blocked) &&
    decide (excluded.state = .awaitingPrompt)

/-- `INSERT … ON CONFLICT (pty_session_id) DO UPDATE`. -/
def upsertRecord (record : Option ActivityRecord) (excluded : ActivityRecord) : ActivityRecord :=
  match record with
  | none => excluded
  | some row => if keepsAttention row excluded then row else excluded

/-- `set`; without a record it returns an error. -/
def set (pty : Pty) (state : ActivityState) (summary reason : Option String) (source : Source)
    (confidence : Confidence) (now : Timestamp) : Pty × Option ActivityRecord :=
  let excluded : ActivityRecord :=
    ⟨state, cleanOptional summary 240, cleanOptional reason 500, source, confidence, now⟩
  let pty :=
    if pty.live then { pty with record := some (upsertRecord pty.record excluded) } else pty
  (pty, pty.record)

def clear (pty : Pty) : Pty := { pty with record := none }

/-- The PTY session an agent session is running in. -/
def Pty.receives (pty : Pty) (session : Uuid) : Bool :=
  decide (pty.currentSession = some session) && pty.live &&
    decide (pty.runtime = .starting ∨ pty.runtime = .running)

def setForCurrentAgentSession (pty : Pty) (session : Uuid) (state : ActivityState)
    (summary reason : Option String) (source : Source) (confidence : Confidence) (now : Timestamp) :
    Pty :=
  if pty.receives session then
    { pty with
      record := some (upsertRecord pty.record
        ⟨state, cleanOptional summary 240, cleanOptional reason 500, source, confidence, now⟩) }
  else pty

/-! ## Records derived from transcripts -/

/-- State, summary and confidence of a derived record. -/
abbrev Derived := ActivityState × Option String × Confidence

def nonEmptyPrefix (value : String) : Option String := cleanOptional (some value) 240

def firstMessageText (value : Json) : Option String :=
  ((value.get "message").bind (·.get "content")).bind fun content =>
    match content with
    | .str text => nonEmptyPrefix text
    | .arr items => items.findSome? fun item =>
        if item.strAt "type" = some "text" then (item.strAt "text").bind nonEmptyPrefix else none
    | _ => none

def claudeCompactionSubtype (value : Json) : Option String :=
  if (value.get "isCompactSummary").bind Json.asBool = some true then some "compact_summary"
  else if value.strAt "type" ≠ some "system" then none
  else
    match value.strAt "subtype" with
    | some "compact_boundary" => some "compact_boundary"
    | some "informational" =>
        if (value.strAt "content").any fun text => startsWith text "Compacted while idle," then
          some "compact_status"
        else none
    | _ => none

/-- The summary of an interactive tool call in an assistant record. -/
def interactiveClaudeTool (value : Json) : Option String :=
  (((value.get "message").bind (·.get "content")).bind Json.asArray).bind fun content =>
    content.findSome? fun item =>
      if item.strAt "type" ≠ some "tool_use" then none
      else
        match item.strAt "name" with
        | some "ExitPlanMode" | some "exitPlanMode" => some "Plan ready for review in the terminal"
        | some "AskUserQuestion" =>
            let question := ((((item.get "input").bind (·.get "questions")).bind Json.asArray).bind
              List.head?).bind (·.strAt "question")
            some ((question.map ("Question in the terminal: " ++ ·)).getD
              "Question awaiting an answer in the terminal")
        | _ => none

def claudeTransition (value : Json) : Option Derived :=
  if (claudeCompactionSubtype value).isSome ∨
      value.strAt "type" = some "user" ∧ (value.get "isMeta").bind Json.asBool = some true then
    none
  else
    match value.strAt "type" with
    | some "user" => some (.working, firstMessageText value, .derived)
    | some "assistant" => (interactiveClaudeTool value).map fun summary =>
        (.needsInput, some summary, .derived)
    | some "system" =>
        match value.strAt "subtype" with
        | some "turn_duration" | some "stop_hook_summary" => some (.awaitingPrompt, none, .derived)
        | _ => none
    | _ => none

def codexTransition (value : Json) : Option Derived :=
  let outer := (codexRecordKind value).getD ""
  let subtype := ((value.get "payload").bind (·.strAt "type")).getD ""
  match outer, subtype with
  | "event_msg", "task_started" | "event_msg", "turn_started" => some (.working, none, .explicit)
  | "event_msg", "task_complete" | "event_msg", "turn_complete" | "event_msg", "turn_aborted" =>
      some (.awaitingPrompt, none, .explicit)
  | "response_item", "custom_tool_call" | "response_item", "function_call" =>
      (value.get "payload").bind fun payload =>
        let name := (payload.strAt "name").getD ""
        if name = "request_user_input" ∨
            name = "exec" ∧ (payload.strAt "input").any (containsText · "request_user_input") then
          some (.needsInput, some "Input requested in the terminal", .derived)
        else none
  | "response_item", "custom_tool_call_output" | "response_item", "function_call_output" =>
      some (.working, none, .derived)
  | _, _ => none

def transition (source : TranscriptSource) (value : Json) : Option Derived :=
  match source with
  | .claudeCode => claudeTransition value
  | .codex => codexTransition value

def projectFromEvent (pty : Pty) (session : Uuid) (source : TranscriptSource) (value : Json)
    (now : Timestamp) : Pty :=
  match transition source value with
  | none => pty
  | some (state, summary, confidence) =>
      setForCurrentAgentSession pty session state summary none .ingester confidence now

/-- The update of `repair_compaction_activity`, with the record it found before the
compaction: it replaces the ingester's own derived `working` only. -/
def repairCompaction (pty : Pty) (session : Uuid) (derived : Derived) (now : Timestamp) : Pty :=
  match pty.record with
  | none => pty
  | some row =>
      if pty.receives session ∧ row.source = .ingester ∧ row.confidence = .derived ∧
          row.state = .working then
        { pty with record := some ⟨derived.1, derived.2.1, none, .ingester, derived.2.2, now⟩ }
      else pty

/-! ## The system -/

inductive Action
  | event (session : Uuid) (source : TranscriptSource) (value : Json)
  | repair (session : Uuid) (derived : Derived)
  | report (state : ActivityState) (summary reason : Option String)
  | clear
  | prompt (text : String)
  | running (agent : String)
  | exited (agent : String)
  | correlate (session : Uuid)
  | ended

/-- One action on a PTY session, at `now`. -/
def act (pty : Pty) (now : Timestamp) : Action → Pty
  | .event session source value => projectFromEvent pty session source value now
  | .repair session derived => repairCompaction pty session derived now
  | .report state summary reason => (set pty state summary reason .agent .explicit now).1
  | .clear => clear pty
  | .prompt text => (set pty .working (some text) none .user .explicit now).1
  | .running agent =>
      if pty.live then
        (set { pty with runtimeAgent := some agent, runtime := .running } .unknown none none
          .launcher
          .unknown now).1
      else pty
  | .exited agent =>
      clear (if (pty.runtime = .starting ∨ pty.runtime = .running) ∧
          (pty.runtimeAgent = none ∨ pty.runtimeAgent = some agent) then
        { pty with runtimeAgent := some agent, runtime := .exited }
      else pty)
  | .correlate session => { pty with currentSession := some session }
  | .ended => { pty with live := false }

/-- A PTY session and the attention state its agent has reported and not released. -/
structure Watched where
  pty : Pty
  standing : Option ActivityState

/-- The standing report after an action. Only agents, prompts, the launcher and an exit end
one. -/
def standingAfter (s : Watched) : Action → Option ActivityState
  | .report state _ _ =>
      if s.pty.live then
        match state with
        | .needsInput | .blocked => some state
        | .awaitingPrompt => s.standing
        | .working | .unknown => none
      else s.standing
  | .prompt _ | .running _ => if s.pty.live then none else s.standing
  | .clear | .exited _ => none
  | .event _ _ _ | .repair _ _ | .correlate _ | .ended => s.standing

def activityStep (s : Watched) (a : Timestamp × Action) : Option Watched :=
  some ⟨act s.pty a.1 a.2, standingAfter s a.2⟩

/-- While a report stands, only `awaiting_prompt` is derived. -/
def DerivedIdle (s : Watched) (a : Timestamp × Action) : Prop :=
  match a.2 with
  | .event session source value => s.standing.isSome → s.pty.receives session →
      ∀ derived ∈ transition source value, derived.1 = .awaitingPrompt
  | _ => True

/-- The session shows what its agent reported. -/
def Shows (s : Watched) : Prop :=
  ∀ state ∈ s.standing, (state = .needsInput ∨ state = .blocked) ∧
    ∃ row ∈ s.pty.record, row.source = .agent ∧ row.state = state

variable {s s' : Watched} {pty : Pty}

/-! ## What one action does to a standing report -/

/-- Against an agent's attention state the upsert keeps the record from `awaiting_prompt`. -/
theorem upsertRecord_attention {row excluded : ActivityRecord} (hsource : row.source = .agent)
    (hstate : row.state = .needsInput ∨ row.state = .blocked) :
    upsertRecord (some row) excluded = if excluded.state = .awaitingPrompt then row
      else excluded := by
  simp [upsertRecord, keepsAttention, hsource, hstate]

/-- A derived record that is `awaiting_prompt` changes nothing. -/
theorem projectFromEvent_attention {row : ActivityRecord} {session : Uuid}
    {source : TranscriptSource}
    {value : Json} {now : Timestamp} (hrow : pty.record = some row) (hsource : row.source = .agent)
    (hstate : row.state = .needsInput ∨ row.state = .blocked)
    (hidle : pty.receives session →
      ∀ derived ∈ transition source value, derived.1 = .awaitingPrompt) :
    projectFromEvent pty session source value now = pty := by
  unfold projectFromEvent
  cases htransition : transition source value with
  | none => rfl
  | some derived =>
      obtain ⟨state, summary, confidence⟩ := derived
      change setForCurrentAgentSession pty session state summary none .ingester confidence now = pty
      unfold setForCurrentAgentSession
      split
      · rename_i hreceives
        have hwaiting : state = .awaitingPrompt := hidle hreceives _ htransition
        rw [hrow, upsertRecord_attention hsource hstate, if_pos hwaiting, ← hrow]
      · rfl

/-- The repair leaves records of other sources alone. -/
theorem repairCompaction_agent {row : ActivityRecord} {session : Uuid} {derived : Derived}
    {now : Timestamp} (hrow : pty.record = some row) (hsource : row.source = .agent) :
    repairCompaction pty session derived now = pty := by
  simp [repairCompaction, hrow, hsource]

theorem set_record {state : ActivityState} {summary reason : Option String} {source : Source}
    {confidence : Confidence} {now : Timestamp} (hlive : pty.live = true) :
    (set pty state summary reason source confidence now).1.record =
      some (upsertRecord pty.record ⟨state, cleanOptional summary 240, cleanOptional reason 500,
        source, confidence, now⟩) := by
  simp [set, hlive]

theorem set_of_not_live {state : ActivityState} {summary reason : Option String} {source : Source}
    {confidence : Confidence} {now : Timestamp} (hlive : pty.live = false) :
    (set pty state summary reason source confidence now).1 = pty := by
  simp [set, hlive]

/-- What the agent reports is what the session shows, but for an `awaiting_prompt` over its own
attention state. -/
theorem shows_report (h : Shows s) {now : Timestamp} {state : ActivityState}
    {summary reason : Option String} :
    Shows ⟨(set s.pty state summary reason .agent .explicit now).1,
      standingAfter s (.report state summary reason)⟩ := by
  cases hlive : s.pty.live with
  | false =>
      have hstanding : standingAfter s (.report state summary reason) = s.standing := by
        simp [standingAfter, hlive]
      rw [set_of_not_live hlive, hstanding]
      exact h
  | true =>
      -- The upsert keeps the record from an `awaiting_prompt` only.
      have hreplaced : state ≠ .awaitingPrompt →
          (set s.pty state summary reason .agent .explicit now).1.record =
            some ⟨state, cleanOptional summary 240, cleanOptional reason 500, .agent, .explicit,
              now⟩ := by
        intro hstate
        rw [set_record hlive]
        cases s.pty.record with
        | none => rfl
        | some row => simp [upsertRecord, keepsAttention, hstate]
      intro shown hshown
      simp only [standingAfter, hlive, if_true] at hshown
      cases state with
      | needsInput =>
          cases hshown
          exact ⟨.inl rfl, _, hreplaced (by decide), rfl, rfl⟩
      | blocked =>
          cases hshown
          exact ⟨.inr rfl, _, hreplaced (by decide), rfl, rfl⟩
      | awaitingPrompt =>
          obtain ⟨hattention, row, hrow, hsource, hstate⟩ := h shown hshown
          have hrow : s.pty.record = some row := hrow
          refine ⟨hattention, row, ?_, hsource, hstate⟩
          change (set s.pty .awaitingPrompt summary reason .agent .explicit now).1.record = some row
          rw [set_record hlive, hrow, upsertRecord_attention hsource (hstate ▸ hattention),
            if_pos rfl]
      | working => cases hshown
      | unknown => cases hshown

/-- **One action keeps the report shown**, if what it derives is idle. -/
theorem shows_step (h : Shows s) {a : Timestamp × Action} (hidle : DerivedIdle s a)
    (hstep : activityStep s a = some s') : Shows s' := by
  obtain ⟨now, action⟩ := a
  cases hstep
  cases action with
  | event session source value =>
      intro state hstate
      obtain ⟨hattention, row, hrow, hsource, hrowState⟩ := h state hstate
      refine ⟨hattention, row, ?_, hsource, hrowState⟩
      have hsome : s.standing.isSome := Option.isSome_iff_exists.mpr ⟨state, hstate⟩
      have hkept : projectFromEvent s.pty session source value now = s.pty :=
        projectFromEvent_attention hrow hsource (hrowState ▸ hattention) (hidle hsome)
      change (projectFromEvent s.pty session source value now).record = some row
      rw [hkept]
      exact hrow
  | repair session derived =>
      intro state hstate
      obtain ⟨hattention, row, hrow, hsource, hrowState⟩ := h state hstate
      refine ⟨hattention, row, ?_, hsource, hrowState⟩
      change (repairCompaction s.pty session derived now).record = some row
      rw [repairCompaction_agent hrow hsource]
      exact hrow
  | report state summary reason => exact shows_report h
  | clear =>
      intro state hstate
      cases hstate
  | prompt text =>
      cases hlive : s.pty.live with
      | false =>
          simp only [act, standingAfter, set_of_not_live hlive, hlive]
          exact h
      | true =>
          intro state hstate
          simp [standingAfter, hlive] at hstate
  | running agent =>
      cases hlive : s.pty.live with
      | false =>
          simp only [act, standingAfter, hlive]
          exact h
      | true =>
          intro state hstate
          simp [standingAfter, hlive] at hstate
  | exited agent =>
      intro state hstate
      cases hstate
  | correlate session => exact h
  | ended => exact h

/-! ## Every run -/

/-- **An agent's attention report stands.** In every run, from any state of the PTY session, in
which only `awaiting_prompt` is derived while a report stands: from the agent's `needs_input` or
`blocked` until it is released, the record is the agent's and shows that state. -/
theorem attention_sticks (pty : Pty) (s : Watched)
    (hrun : Run activityStep DerivedIdle ⟨pty, none⟩ s) :
    ∀ state ∈ s.standing, ∃ row ∈ s.pty.record, row.source = .agent ∧ row.state = state := by
  have hshows : Shows s := by
    refine hrun.invariant ?_ ?_
    · intro t a t' ht hidle hstep
      exact shows_step ht hidle hstep
    · intro state hstate
      cases hstate
  exact fun state hstate => (hshows state hstate).2

/-! ## The agent's own tool result -/

/-- A live session whose agent is running. -/
def samplePty : Pty := ⟨true, some "claude-code", .running, some 1, none⟩

/-- The last record of a turn. -/
def turnDuration : Json := .obj [("type", .str "system"), ("subtype", .str "turn_duration")]

/-- The record with the result of the command the agent reported with. -/
def toolResult : Json := .obj
  [("type", .str "user"),
    ("message", .obj [("content", .arr [.obj [("type", .str "tool_result")]])])]

/-- A turn ends after the report. -/
theorem attention_sticks_turnEnd :
    ∃ s, Run activityStep DerivedIdle ⟨samplePty, none⟩ s ∧
      ∃ row ∈ s.pty.record, row.source = .agent ∧ row.state = .needsInput := by
  have hrun : Run activityStep DerivedIdle ⟨samplePty, none⟩
      ⟨act (act samplePty 0 (.report .needsInput none none)) 1 (.event 1 .claudeCode turnDuration),
        some .needsInput⟩ := by
    refine ((Run.refl _).snoc (a := (0, .report .needsInput none none)) trivial rfl).snoc
      (a := (1, .event 1 .claudeCode turnDuration)) ?_ rfl
    intro _ _ derived hderived
    cases hderived
    rfl
  exact ⟨_, hrun, attention_sticks samplePty _ hrun .needsInput rfl⟩

/-- The result of the agent's own command makes it `working`, and the end of the turn then
`awaiting_prompt`. -/
theorem toolResult_releases_report :
    ∃ s, Run activityStep anyStep ⟨samplePty, none⟩ s ∧ s.standing = some .needsInput ∧
      s.pty.record.map ActivityRecord.state = some .awaitingPrompt := by
  refine ⟨_, .of_runList [(0, .report .needsInput none none), (1, .event 1 .claudeCode toolResult),
    (2, .event 1 .claudeCode turnDuration)] rfl, ?_, ?_⟩
  · rfl
  · rfl

end Sulion.Activity
