import Sulion.Lib.Transition

set_option autoImplicit false

/-! # Binding agent sessions to PTYs

`correlate::apply` binds an agent session to a PTY with three statements outside of a transaction:
it names the PTY in `claude_sessions`, releases the session from every other PTY, and makes it the
current session of its own. Calls interleave between the statements.
-/

namespace Sulion.Correlate

open Transition

abbrev SessionUuid := Nat

abbrev PtyId := Nat

abbrev CallId := Nat

structure CorrelateMsg where
  ptyId : PtyId
  sessionUuid : SessionUuid
  agent : String
  deriving DecidableEq, Repr

def transcriptAgent (displayAgent : String) : String :=
  if displayAgent = "fugu" then "codex" else displayAgent

/-- The columns of `claude_sessions` that a call writes. -/
structure ClaudeSession where
  agent : String
  ptySessionId : Option PtyId
  deriving DecidableEq, Repr

/-- The columns of `pty_sessions` that a call writes. -/
structure PtySession where
  currentSessionUuid : Option SessionUuid
  currentSessionAgent : Option String
  deriving DecidableEq, Repr

/-- The statement that a call runs next; its first one begins it. -/
inductive Next
  | release
  | setCurrent
  deriving DecidableEq, Repr

/-- The two tables and the calls in progress. -/
structure Bindings where
  claudeSessions : SessionUuid → Option ClaudeSession
  ptySessions : PtyId → Option PtySession
  calls : CallId → Option (CorrelateMsg × Next)

inductive Action
  | upsert (call : CallId) (msg : CorrelateMsg)
  | release (call : CallId)
  | setCurrent (call : CallId)
  deriving DecidableEq, Repr

namespace Bindings

/-! ## The three statements -/

def upsertSession (b : Bindings) (msg : CorrelateMsg) : Bindings :=
  { b with
    claudeSessions := Function.update b.claudeSessions msg.sessionUuid
      (some ⟨transcriptAgent msg.agent, some msg.ptyId⟩) }

def releaseElsewhere (b : Bindings) (msg : CorrelateMsg) : Bindings :=
  { b with
    ptySessions := fun id => (b.ptySessions id).map fun row =>
      if row.currentSessionUuid = some msg.sessionUuid ∧ id ≠ msg.ptyId then ⟨none, none⟩
      else row }

def setCurrent (b : Bindings) (msg : CorrelateMsg) : Bindings :=
  { b with
    ptySessions := Function.update b.ptySessions msg.ptyId
      ((b.ptySessions msg.ptyId).map fun _ => ⟨some msg.sessionUuid, some msg.agent⟩) }

def goTo (b : Bindings) (call : CallId) (next : Option (CorrelateMsg × Next)) : Bindings :=
  { b with calls := Function.update b.calls call next }

def step (b : Bindings) : Action → Option Bindings
  | .upsert call msg =>
      match b.calls call with
      | none => some ((b.upsertSession msg).goTo call (some (msg, .release)))
      | some _ => none
  | .release call =>
      match b.calls call with
      | some (msg, .release) => some ((b.releaseElsewhere msg).goTo call (some (msg, .setCurrent)))
      | _ => none
  | .setCurrent call =>
      match b.calls call with
      | some (msg, .setCurrent) => some ((b.setCurrent msg).goTo call none)
      | _ => none

/-! ## What the tables say about a session -/

/-- The session is the PTY's current one. -/
def Current (b : Bindings) (id : PtyId) (session : SessionUuid) : Prop :=
  ∃ row, b.ptySessions id = some row ∧ row.currentSessionUuid = some session

/-- `claude_sessions` names the PTY for the session. -/
def Names (b : Bindings) (session : SessionUuid) (id : PtyId) : Prop :=
  ∃ row, b.claudeSessions session = some row ∧ row.ptySessionId = some id

/-- A call that has named another PTY for the session has still to release it elsewhere. -/
def Releasing (b : Bindings) (session : SessionUuid) (id : PtyId) : Prop :=
  ∃ call msg, b.calls call = some (msg, .release) ∧ msg.sessionUuid = session ∧ msg.ptyId ≠ id

/-- **An agent session lives in exactly one PTY**, the one that `claude_sessions` names. -/
def Exclusive (b : Bindings) : Prop :=
  (∀ session id id', b.Current id session → b.Current id' session → id = id') ∧
  ∀ session id, b.Current id session → b.Names session id

def Quiet (b : Bindings) : Prop := ∀ call, b.calls call = none

/-- A call makes its session current only while `claude_sessions` still names its PTY, or another
call is about to release the session from that PTY again; a PTY without a row stays without. -/
def InTurn (b : Bindings) : Action → Prop
  | .setCurrent call =>
      ∀ msg, b.calls call = some (msg, .setCurrent) →
        b.ptySessions msg.ptyId = none ∨ b.Names msg.sessionUuid msg.ptyId ∨
          b.Releasing msg.sessionUuid msg.ptyId
  | _ => True

/-- Between the statements: a session is current where it is named, or is about to be released. -/
def Settling (b : Bindings) : Prop :=
  ∀ session id, b.Current id session → b.Names session id ∨ b.Releasing session id

variable {b b' : Bindings} {msg : CorrelateMsg} {call : CallId} {session : SessionUuid}
  {id : PtyId}

/-! ## One statement at a time -/

theorem names_upsertSession_iff :
    (b.upsertSession msg).Names session id ↔
      if session = msg.sessionUuid then msg.ptyId = id else b.Names session id := by
  simp only [Names, upsertSession, Function.update_apply]
  by_cases h : session = msg.sessionUuid
  · simp [h]
  · simp [h]

theorem current_releaseElsewhere_iff :
    (b.releaseElsewhere msg).Current id session ↔
      b.Current id session ∧ (session = msg.sessionUuid → id = msg.ptyId) := by
  simp only [Current, releaseElsewhere, Option.map_eq_some_iff]
  constructor
  · rintro ⟨row, ⟨old, hold, rfl⟩, hcurrent⟩
    split at hcurrent
    · cases hcurrent
    · rename_i hkeep
      refine ⟨⟨old, hold, hcurrent⟩, ?_⟩
      rintro rfl
      by_contra hne
      exact hkeep ⟨hcurrent, hne⟩
  · rintro ⟨⟨row, hrow, hcurrent⟩, hown⟩
    refine ⟨row, ⟨row, hrow, if_neg ?_⟩, hcurrent⟩
    rintro ⟨hsession, hne⟩
    exact hne (hown (Option.some.inj (hcurrent.symm.trans hsession)))

theorem current_setCurrent_iff :
    (b.setCurrent msg).Current id session ↔
      if id = msg.ptyId then b.ptySessions id ≠ none ∧ session = msg.sessionUuid
      else b.Current id session := by
  simp only [Current, setCurrent, Function.update_apply]
  by_cases h : id = msg.ptyId
  · subst h
    rw [if_pos rfl, if_pos rfl]
    cases b.ptySessions msg.ptyId with
    | none => simp
    | some row => simp [eq_comm]
  · simp [h]

theorem releasing_goTo_of_ne {next : Option (CorrelateMsg × Next)}
    (h : b.Releasing session id)
    (hcall : ∀ msg, b.calls call = some (msg, .release) → msg.sessionUuid = session →
      msg.ptyId = id) : (b.goTo call next).Releasing session id := by
  obtain ⟨other, msg, hother, hsession, hne⟩ := h
  have hdiff : other ≠ call := by
    rintro rfl
    exact hne (hcall msg hother hsession)
  exact ⟨other, msg, by simp [goTo, hdiff, hother], hsession, hne⟩

theorem Settling.upsert (h : b.Settling) (hfree : b.calls call = none) :
    ((b.upsertSession msg).goTo call (some (msg, .release))).Settling := by
  intro session id hcurrent
  by_cases hsession : session = msg.sessionUuid
  · by_cases hid : msg.ptyId = id
    · exact .inl (names_upsertSession_iff.mpr (by simp [hsession, hid]))
    · -- the session is current elsewhere, and the call's next statement releases it
      exact .inr ⟨call, msg, by simp [goTo], hsession.symm, hid⟩
  · rcases h session id hcurrent with hnames | hreleasing
    · exact .inl (names_upsertSession_iff.mpr (by simpa [hsession] using hnames))
    · refine .inr (releasing_goTo_of_ne (b := b.upsertSession msg) hreleasing ?_)
      intro other hother
      rw [show (b.upsertSession msg).calls call = none from hfree] at hother
      cases hother

theorem Settling.release (h : b.Settling) (hcall : b.calls call = some (msg, .release)) :
    ((b.releaseElsewhere msg).goTo call (some (msg, .setCurrent))).Settling := by
  intro session id hcurrent
  obtain ⟨hold, hown⟩ := current_releaseElsewhere_iff.mp hcurrent
  rcases h session id hold with hnames | hreleasing
  · exact .inl hnames
  · refine .inr (releasing_goTo_of_ne (b := b.releaseElsewhere msg) hreleasing ?_)
    intro other hother hsession
    rw [show (b.releaseElsewhere msg).calls call = _ from hcall] at hother
    cases hother
    exact (hown hsession.symm).symm

theorem Settling.setCurrent (h : b.Settling) (hcall : b.calls call = some (msg, .setCurrent))
    (hok : b.InTurn (.setCurrent call)) : ((b.setCurrent msg).goTo call none).Settling := by
  intro session id hcurrent
  have hbefore : b.Names session id ∨ b.Releasing session id := by
    have hcurrent' := current_setCurrent_iff.mp hcurrent
    by_cases hid : id = msg.ptyId
    · rw [if_pos hid] at hcurrent'
      obtain ⟨hrow, rfl⟩ := hcurrent'
      rw [hid] at hrow ⊢
      exact (hok msg hcall).resolve_left hrow
    · rw [if_neg hid] at hcurrent'
      exact h session id hcurrent'
  rcases hbefore with hnames | hreleasing
  · exact .inl hnames
  · refine .inr (releasing_goTo_of_ne (b := b.setCurrent msg) hreleasing ?_)
    intro other hother
    rw [show (b.setCurrent msg).calls call = _ from hcall] at hother
    cases hother

theorem Settling.step {a : Action} (h : b.Settling) (hok : b.InTurn a)
    (hstep : b.step a = some b') : b'.Settling := by
  cases a with
  | upsert call msg =>
      simp only [Bindings.step] at hstep
      split at hstep
      · cases hstep
        exact h.upsert ‹_›
      · cases hstep
  | release call =>
      simp only [Bindings.step] at hstep
      split at hstep
      · cases hstep
        exact h.release ‹_›
      · cases hstep
  | setCurrent call =>
      simp only [Bindings.step] at hstep
      split at hstep
      · cases hstep
        exact h.setCurrent ‹_› hok
      · cases hstep

/-! ## Runs -/

theorem Exclusive.settling (h : b.Exclusive) : b.Settling :=
  fun session id hcurrent => .inl (h.2 session id hcurrent)

theorem exclusive_of_names (h : ∀ session id, b.Current id session → b.Names session id) :
    b.Exclusive := by
  refine ⟨fun session id id' hid hid' => ?_, h⟩
  obtain ⟨row, hrow, hpty⟩ := h session id hid
  obtain ⟨row', hrow', hpty'⟩ := h session id' hid'
  rw [hrow] at hrow'
  cases hrow'
  exact Option.some.inj (hpty.symm.trans hpty')

theorem Settling.exclusive (h : b.Settling) (hquiet : b.Quiet) : b.Exclusive := by
  apply exclusive_of_names
  intro session id hcurrent
  refine (h session id hcurrent).resolve_right ?_
  rintro ⟨call, msg, hcall, -⟩
  rw [hquiet call] at hcall
  cases hcall

/-- **Every agent session lives in exactly one PTY** when no call is in progress, in every run in
which a call makes its session current in turn. When the last call in progress makes its session
current, it has to be in turn. -/
theorem session_lives_in_one_pty (h : b.Exclusive) (hrun : Run Bindings.step InTurn b b') :
    (b'.Quiet → b'.Exclusive) ∧
    ∀ call b'', b'.step (.setCurrent call) = some b'' → b''.Quiet →
      (b''.Exclusive ↔ b'.InTurn (.setCurrent call)) := by
  have hsettling : b'.Settling :=
    hrun.invariant (fun _ _ _ h hok hstep => h.step hok hstep) h.settling
  refine ⟨hsettling.exclusive, fun call b'' hstep hquiet'' => ⟨fun hexclusive => ?_, fun hok => ?_⟩⟩
  · intro msg hcall
    simp only [Bindings.step, hcall, Option.some.injEq] at hstep
    subst hstep
    by_cases hrow : b'.ptySessions msg.ptyId = none
    · exact .inl hrow
    · have hcurrent : (b'.setCurrent msg).Current msg.ptyId msg.sessionUuid :=
        current_setCurrent_iff.mpr (by simp [hrow])
      exact .inr (.inl (hexclusive.2 _ _ hcurrent))
  · exact (hsettling.step hok hstep).exclusive hquiet''

/-! ## Two PTYs at once -/

/-- Two PTYs without a current session. -/
def twoPtys : Bindings :=
  { claudeSessions := fun _ => none
    ptySessions := fun id => if id = 1 ∨ id = 2 then some ⟨none, none⟩ else none
    calls := fun _ => none }

theorem Exclusive.twoPtys : Exclusive twoPtys := by
  apply exclusive_of_names
  rintro session id ⟨row, hrow, hcurrent⟩
  simp only [Bindings.twoPtys] at hrow
  split at hrow
  · cases hrow
    cases hcurrent
  · cases hrow

/-- Two calls that resume one session in two PTYs, statement by statement, leave it current in
both. -/
theorem session_lives_in_two_ptys : ∃ b : Bindings,
    Run Bindings.step anyStep twoPtys b ∧ b.Quiet ∧ ¬ b.Exclusive := by
  refine ⟨_, .of_runList [.upsert 0 ⟨1, 7, "codex"⟩, .upsert 1 ⟨2, 7, "codex"⟩, .release 0,
    .release 1, .setCurrent 0, .setCurrent 1] rfl, fun call => ?_, fun h => ?_⟩
  · simp only [goTo, Bindings.setCurrent, releaseElsewhere, upsertSession, Function.update_apply,
      twoPtys]
    grind
  · exact absurd (h.1 7 1 2 ⟨_, rfl, rfl⟩ ⟨_, rfl, rfl⟩) (by decide)

/-- A session is bound to a PTY. -/
theorem session_lives_in_one_pty_bound : ∃ b : Bindings,
    b.Current 1 7 ∧ (b.Quiet → b.Exclusive) := by
  have hok : ((twoPtys.upsertSession ⟨1, 7, "codex"⟩).goTo 0
      (some (⟨1, 7, "codex"⟩, .release))).Names 7 1 := ⟨_, rfl, rfl⟩
  have hrun : ∃ b, Run Bindings.step InTurn twoPtys b ∧
      b.ptySessions 1 = some ⟨some 7, some "codex"⟩ := by
    refine ⟨_, (((Run.refl twoPtys).snoc (a := .upsert 0 ⟨1, 7, "codex"⟩) trivial rfl).snoc
      (a := .release 0) trivial rfl).snoc (a := .setCurrent 0) ?_ rfl, rfl⟩
    intro msg hmsg
    cases hmsg
    exact .inr (.inl hok)
  obtain ⟨b, hb, hrow⟩ := hrun
  exact ⟨b, ⟨_, hrow, rfl⟩, (session_lives_in_one_pty .twoPtys hb).1⟩

end Bindings

end Sulion.Correlate
