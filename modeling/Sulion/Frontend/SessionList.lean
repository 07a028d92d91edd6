import Sulion.Lib.Transition
import Sulion.Rust.Text

set_option autoImplicit false

/-! # The list of sessions under optimistic updates

What `SessionStore` does to its list of sessions: the answers of the server that change it, and
`updateSession`, which patches the list first and puts the list of before back when the server
refuses. The steps are those of any interleaving. Beside the list, a state has what the list should
come from: the changes in the order in which they came, without the patches that have failed.
-/

namespace Sulion.Frontend.SessionList

open Transition

/-! ## Sessions and changes -/

structure WorkspaceView where
  id : String
  repoName : String
  path : String
  deriving DecidableEq

structure MetaRepoView where
  id : String
  name : String
  deriving DecidableEq

/-- A session; `rest` are the fields that only the server writes. -/
structure SessionView (ρ : Type) where
  id : String
  repo : String
  workingDir : String
  workspace : Option WorkspaceView
  metaRepo : Option MetaRepoView
  label : Option String
  pinned : Bool
  color : Option String
  rest : ρ
  deriving DecidableEq

/-- The fields that are `undefined` are `none`. -/
structure UpdateSessionRequest where
  label : Option (Option String) := none
  pinned : Option Bool := none
  color : Option (Option String) := none

def replacePathStart (value fromStart toStart : String) : String :=
  if fromStart = "" ∨ toStart = "" then value
  else if value = fromStart then toStart
  else if Rust.startsWith value (fromStart ++ "/") then
    toStart ++ String.ofList (value.toList.drop fromStart.toList.length)
  else value

/-- An answer of the server that changes the list. -/
inductive Answer (ρ : Type)
  | loadAppState (sessions : List (SessionView ρ))
  | createSession (created : SessionView ρ)
  | deleteSession (id : String)
  | deleteWorkspace (id : String)
  | saveMetaRepo (id savedName : String)
  | renameRepo (name renamedName oldPath newPath : String)

inductive Change (ρ : Type)
  | answer (a : Answer ρ)
  | updateSession (id : String) (patch : UpdateSessionRequest)

variable {ρ : Type}

/-- A poll that brings the same list keeps the old one, which is the same value. -/
def Answer.apply (sessions : List (SessionView ρ)) : Answer ρ → List (SessionView ρ)
  | .loadAppState loaded => loaded
  | .createSession created => created :: sessions
  | .deleteSession id => sessions.filter (·.id ≠ id)
  | .deleteWorkspace id =>
      sessions.map fun session =>
        if session.workspace.map (·.id) = some id then { session with workspace := none }
        else session
  | .saveMetaRepo id savedName =>
      sessions.map fun session =>
        if session.metaRepo.map (·.id) = some id then
          { session with metaRepo := some ⟨id, savedName⟩ }
        else session
  | .renameRepo name renamedName oldPath newPath =>
      sessions.map fun session =>
        if session.repo = name then
          { session with
            repo := renamedName
            workingDir := replacePathStart session.workingDir oldPath newPath
            workspace :=
              session.workspace.map fun workspace =>
                if workspace.repoName = name then
                  { workspace with
                    repoName := renamedName
                    path := replacePathStart workspace.path oldPath newPath }
                else workspace }
        else session

def UpdateSessionRequest.apply (patch : UpdateSessionRequest) (session : SessionView ρ) :
    SessionView ρ :=
  { session with
    label := patch.label.getD session.label
    pinned := patch.pinned.getD session.pinned
    color := patch.color.getD session.color }

def Change.apply (sessions : List (SessionView ρ)) : Change ρ → List (SessionView ρ)
  | .answer a => a.apply sessions
  | .updateSession id patch =>
      sessions.map fun session => if session.id = id then patch.apply session else session

/-! ## Steps -/

/-- A change of the list, and the update it is the patch of. -/
structure Entry (ρ : Type) where
  ticket : Option Nat
  change : Change ρ

structure State (ρ : Type) where
  sessions : List (SessionView ρ)
  /-- The updates the server has not answered, each with its `prevSessions`. -/
  inFlight : List (Nat × List (SessionView ρ)) := []
  nextTicket : Nat := 0
  /-- What the list should come from: the first list, and the changes that stand. -/
  first : List (SessionView ρ)
  log : List (Entry ρ) := []

inductive Action (ρ : Type)
  | receive (a : Answer ρ)
  | updateSession (id : String) (patch : UpdateSessionRequest)
  | succeed (ticket : Nat)
  | fail (ticket : Nat)

/-- The changes without the patch of one update. -/
def without (ticket : Nat) (log : List (Entry ρ)) : List (Entry ρ) :=
  log.filter fun entry => entry.ticket ≠ some ticket

def step (s : State ρ) : Action ρ → Option (State ρ)
  | .receive a =>
      some { s with
        sessions := a.apply s.sessions
        log := s.log ++ [⟨none, .answer a⟩] }
  | .updateSession id patch =>
      some { s with
        sessions := (Change.updateSession id patch).apply s.sessions
        inFlight := s.inFlight ++ [(s.nextTicket, s.sessions)]
        nextTicket := s.nextTicket + 1
        log := s.log ++ [⟨some s.nextTicket, .updateSession id patch⟩] }
  | .succeed ticket =>
      match s.inFlight.lookup ticket with
      | none => none
      | some _ => some { s with inFlight := s.inFlight.filter (·.1 ≠ ticket) }
  | .fail ticket =>
      match s.inFlight.lookup ticket with
      | none => none
      | some prevSessions =>
          -- the snapshot goes back in, whatever has come since; of the changes only the patch goes
          some { s with
            sessions := prevSessions
            inFlight := s.inFlight.filter (·.1 ≠ ticket)
            log := without ticket s.log }

/-- The list that a sequence of changes makes. -/
def replay (sessions : List (SessionView ρ)) (log : List (Entry ρ)) : List (SessionView ρ) :=
  log.foldl (fun sessions entry => entry.change.apply sessions) sessions

/-- The list is what the changes make that have not failed. -/
def Exact (s : State ρ) : Prop := s.sessions = replay s.first s.log

/-- Without the patch of a failed update, the changes make the list that the update began with. -/
def Timely (s : State ρ) : Action ρ → Prop
  | .fail ticket => s.inFlight.lookup ticket = some (replay s.first (without ticket s.log))
  | _ => True

def NoFailure (_ : State ρ) : Action ρ → Prop
  | .fail _ => False
  | _ => True

/-! ## Replays -/

variable {s s' t u : State ρ} {a : Action ρ} {ticket : Nat} {prev : List (SessionView ρ)}

theorem replay_append (sessions : List (SessionView ρ)) (log more : List (Entry ρ)) :
    replay sessions (log ++ more) = replay (replay sessions log) more := List.foldl_append

theorem replay_snoc (sessions : List (SessionView ρ)) (log : List (Entry ρ)) (entry : Entry ρ) :
    replay sessions (log ++ [entry]) = entry.change.apply (replay sessions log) := by
  rw [replay_append]
  rfl

theorem step_fail (h : step s (.fail ticket) = some s') : ∃ prev,
    s.inFlight.lookup ticket = some prev ∧
      s' = { s with
        sessions := prev
        inFlight := s.inFlight.filter (·.1 ≠ ticket)
        log := without ticket s.log } := by
  rw [step] at h
  split at h
  · cases h
  · rename_i prev hprev
    exact ⟨prev, hprev, (Option.some.inj h).symm⟩

theorem step_succeed (h : step s (.succeed ticket) = some s') :
    s' = { s with inFlight := s.inFlight.filter (·.1 ≠ ticket) } := by
  rw [step] at h
  split at h
  · cases h
  · exact (Option.some.inj h).symm

/-- **A step keeps the list exact exactly when it is timely.** -/
theorem step_exact_iff (h : Exact s) (hstep : step s a = some s') : Exact s' ↔ Timely s a := by
  cases a with
  | receive a =>
      obtain rfl := Option.some.inj hstep
      refine iff_of_true ?_ trivial
      rw [Exact, replay_snoc, ← show s.sessions = _ from h]
      rfl
  | updateSession id patch =>
      obtain rfl := Option.some.inj hstep
      refine iff_of_true ?_ trivial
      rw [Exact, replay_snoc, ← show s.sessions = _ from h]
  | succeed ticket =>
      rw [step_succeed hstep]
      exact iff_of_true h trivial
  | fail ticket =>
      obtain ⟨prev, hprev, rfl⟩ := step_fail hstep
      rw [Timely, hprev, Option.some.injEq]
      rfl

/-- Tickets are given out once. -/
structure Fresh (s : State ρ) : Prop where
  logged : ∀ entry ∈ s.log, ∀ ticket, entry.ticket = some ticket → ticket < s.nextTicket
  inFlight : ∀ e ∈ s.inFlight, e.1 < s.nextTicket

theorem Fresh.step (h : Fresh s) (hstep : step s a = some s') : Fresh s' := by
  cases a with
  | receive a =>
      obtain rfl := Option.some.inj hstep
      refine ⟨fun entry hentry ticket hticket => ?_, h.inFlight⟩
      rcases List.mem_append.mp hentry with hentry | hentry
      · exact h.logged entry hentry ticket hticket
      · rw [List.mem_singleton.mp hentry] at hticket
        cases hticket
  | updateSession id patch =>
      obtain rfl := Option.some.inj hstep
      refine ⟨fun entry hentry ticket hticket => ?_, fun e he => ?_⟩
      · rcases List.mem_append.mp hentry with hentry | hentry
        · exact (h.logged entry hentry ticket hticket).trans (Nat.lt_succ_self _)
        · rw [List.mem_singleton.mp hentry] at hticket
          exact Option.some.inj hticket ▸ Nat.lt_succ_self _
      · rcases List.mem_append.mp he with he | he
        · exact (h.inFlight e he).trans (Nat.lt_succ_self _)
        · rw [List.mem_singleton.mp he]
          exact Nat.lt_succ_self _
  | succeed ticket =>
      rw [step_succeed hstep]
      exact ⟨h.logged, fun e he => h.inFlight e (List.mem_filter.mp he).1⟩
  | fail ticket =>
      obtain ⟨prev, -, rfl⟩ := step_fail hstep
      exact ⟨fun entry hentry => h.logged entry (List.mem_filter.mp hentry).1,
        fun e he => h.inFlight e (List.mem_filter.mp he).1⟩

theorem without_eq {log : List (Entry ρ)} (h : ∀ entry ∈ log, entry.ticket ≠ some ticket) :
    without ticket log = log := List.filter_eq_self.mpr fun entry hentry =>
  decide_eq_true (h entry hentry)

/-- What a run without a failure leaves of an update that began with `prev`: the changes since then
are logged behind its patch, and the snapshot is kept for as long as it is in flight. -/
structure Waiting (ticket : Nat) (prev : List (SessionView ρ)) (start now : State ρ) : Prop where
  first : now.first = start.first
  le : start.nextTicket ≤ now.nextTicket
  snapshot : ∀ prev', now.inFlight.lookup ticket = some prev' → prev' = prev
  since : ∃ since, now.log = start.log ++ since ∧
    ∀ entry ∈ since, ∀ other, entry.ticket = some other → start.nextTicket ≤ other

theorem lookup_filter {l : List (Nat × List (SessionView ρ))} {other : Nat}
    (h : (l.filter (·.1 ≠ other)).lookup ticket = some prev) : l.lookup ticket = some prev := by
  induction l with
  | nil => cases h
  | cons e l ih =>
      obtain ⟨n, list⟩ := e
      rw [List.filter_cons] at h
      by_cases hn : n = other
      · rw [if_neg (by simpa using hn)] at h
        have hrest := ih h
        by_cases htn : ticket = n
        · -- an entry of the other update cannot be the one that is found
          have hnone (l : List (Nat × List (SessionView ρ))) :
              (l.filter (·.1 ≠ other)).lookup other = none := by
            induction l with
            | nil => rfl
            | cons e l ih =>
                rw [List.filter_cons]
                split
                · rename_i hne
                  have hne : other ≠ e.1 := fun heq => of_decide_eq_true hne heq.symm
                  rw [List.lookup_cons, beq_false_of_ne hne]
                  exact ih
                · exact ih
          rw [htn, hn, hnone] at h
          cases h
        · rw [List.lookup_cons, beq_false_of_ne htn]
          exact hrest
      · rw [if_pos (by simpa using hn)] at h
        rw [List.lookup_cons] at h ⊢
        split
        · rename_i heq
          rw [heq] at h
          exact h
        · rename_i hne
          rw [hne] at h
          exact ih h

theorem Waiting.step {start : State ρ} (h : Waiting ticket prev start s)
    (hticket : ticket < start.nextTicket) (hok : NoFailure s a) (hstep : step s a = some s') :
    Waiting ticket prev start s' := by
  obtain ⟨since, hlog, hsince⟩ := h.since
  cases a with
  | receive a =>
      obtain rfl := Option.some.inj hstep
      refine ⟨h.first, h.le, h.snapshot, since ++ [⟨none, .answer a⟩], ?_, ?_⟩
      · rw [hlog, List.append_assoc]
      · intro entry hentry other hother
        rcases List.mem_append.mp hentry with hentry | hentry
        · exact hsince entry hentry other hother
        · rw [List.mem_singleton.mp hentry] at hother
          cases hother
  | updateSession id patch =>
      obtain rfl := Option.some.inj hstep
      refine ⟨h.first, h.le.trans (Nat.le_succ _), ?_,
        since ++ [⟨some s.nextTicket, .updateSession id patch⟩], ?_, ?_⟩
      · -- the new update is behind the ones that are in flight, under a ticket of its own
        intro prev' hprev'
        dsimp only at hprev'
        rw [List.lookup_append, Option.or_eq_some_iff] at hprev'
        rcases hprev' with hprev' | ⟨-, hprev'⟩
        · exact h.snapshot prev' hprev'
        · have hle := h.le
          have hne : ticket ≠ s.nextTicket := by omega
          rw [List.lookup_cons, beq_false_of_ne hne] at hprev'
          cases hprev'
      · rw [hlog, List.append_assoc]
      · intro entry hentry other hother
        rcases List.mem_append.mp hentry with hentry | hentry
        · exact hsince entry hentry other hother
        · rw [List.mem_singleton.mp hentry] at hother
          exact (Option.some.inj hother) ▸ h.le
  | succeed other =>
      rw [step_succeed hstep]
      exact ⟨h.first, h.le, fun prev' hprev' => h.snapshot prev' (lookup_filter hprev'), h.since⟩
  | fail other => exact hok.elim

/-- **An update that fails undoes only itself exactly when what came since it began would have left
the list as it was.** No other update fails in between here. -/
theorem fail_exact_iff {s₀ : State ρ} {id : String} {patch : UpdateSessionRequest} (h : Exact s)
    (hfresh₀ : Fresh s₀) (hbefore : Run step anyStep s₀ s)
    (hbegin : step s (.updateSession id patch) = some t) (hrun : Run step NoFailure t u)
    (hfail : step u (.fail s.nextTicket) = some s') :
    ∃ since, u.log = t.log ++ since ∧ (Exact s' ↔ replay s.sessions since = s.sessions) := by
  have hfresh : Fresh s := hbefore.invariant (fun _ _ _ hs _ hstep => hs.step hstep) hfresh₀
  obtain rfl := Option.some.inj hbegin
  have hnone : s.inFlight.lookup s.nextTicket = none := by
    rw [List.lookup_eq_none_iff]
    intro e he
    have hlt := hfresh.inFlight e he
    exact bne_iff_ne.mpr (by omega)
  have hwait := hrun.invariant (I := Waiting s.nextTicket s.sessions _)
    (fun _ _ _ hs hok hstep => hs.step (Nat.lt_succ_self _) hok hstep)
    ⟨rfl, le_rfl, ?_, [], (List.append_nil _).symm, List.forall_mem_nil _⟩
  · obtain ⟨since, hlog, hsince⟩ := hwait.since
    obtain ⟨prev, hprev, rfl⟩ := step_fail hfail
    obtain rfl := hwait.snapshot prev hprev
    refine ⟨since, hlog, ?_⟩
    -- only the patch itself is dropped: the changes before have older tickets, those since newer
    have hdropped : without s.nextTicket u.log = s.log ++ since := by
      rw [hlog, without, List.filter_append, List.filter_append]
      have hold : without s.nextTicket s.log = s.log := without_eq fun entry hentry heq =>
        absurd (hfresh.logged entry hentry _ heq) (Nat.lt_irrefl _)
      have hnew : without s.nextTicket since = since := without_eq fun entry hentry heq =>
        absurd (hsince entry hentry _ heq) (Nat.not_succ_le_self _)
      rw [without] at hold hnew
      rw [hold, hnew]
      simp
    rw [Exact, hdropped, replay_append, hwait.first, ← show s.sessions = _ from h, eq_comm]
  · intro prev' hprev'
    dsimp only at hprev'
    rw [List.lookup_append, hnone, Option.none_or, List.lookup_cons, beq_self_eq_true] at hprev'
    exact (Option.some.inj hprev').symm

/-! ## A poll in between -/

def aSession (id : String) (label : Option String) : SessionView Unit :=
  ⟨id, "alpha", "/repos/alpha", none, none, label, false, none, ()⟩

def rename : UpdateSessionRequest := { label := some (some "mine") }

/-- A list of one session, before anything has come. -/
def oneSession : State Unit := ⟨[aSession "s1" none], [], 0, [aSession "s1" none], []⟩

theorem fail_exact_iff_refused : ∃ (s' : State Unit) (since : List (Entry Unit)), Exact s' ↔
    replay oneSession.sessions since = oneSession.sessions := by
  have hbegin : step oneSession (.updateSession "s1" rename) = some _ := rfl
  obtain ⟨since, -, h⟩ := fail_exact_iff (s := oneSession) rfl
    ⟨by simp [oneSession], by simp [oneSession]⟩ (.refl _) hbegin (.refl _) rfl
  exact ⟨_, since, h⟩

end Sulion.Frontend.SessionList
