import Sulion.Devenv.Network

set_option autoImplicit false

/-! # Calls over the link and the connections they depend on

The spawn and snapshot calls of `devenv/link.rs`. A call registers under a fresh reply id, sends its
frame on the connection of its host at that time, and waits for the answer, for the loss of its
connection or for its timeout; each of these takes the link's lock once, and connections open,
announce an ident, send frames and end in between. Sending waits for room under the lock, so it is
one step. A reply id names its call.
-/

namespace Sulion.Devenv.Rpc

open Transition

inductive Kind
  | spawn
  | snapshot
  deriving DecidableEq, Repr

/-- The answer in a `SpawnResult` or a `Snapshot` frame. -/
inductive Answer
  | spawned
  | refused (message : String)
  | bytes (data : List UInt8)
  deriving DecidableEq, Repr

/-- What a call finds in its oneshot channel. -/
inductive Slot
  | empty
  | sent (answer : Answer)
  /-- `fail_pending_for` has failed the call. -/
  | lost
  /-- The sender was dropped with a snapshot that does not decode. -/
  | garbled
  deriving DecidableEq, Repr

inductive Outcome
  | answered (answer : Answer)
  | lost
  | garbled
  | timedOut
  | notConnected
  | closed
  /-- No devenv hosts the session. -/
  | notHosted
  deriving DecidableEq, Repr

/-- What the caller gets. -/
def Outcome.result (kind : Kind) (id : Uuid) (host : String) : Outcome → Except String Answer
  | .answered (.refused message) => .error message
  | .answered answer => .ok answer
  | .lost =>
      match kind with
      | .spawn => .error "devenv connection lost"
      | .snapshot => .error "devenv did not answer the snapshot"
  | .garbled | .timedOut =>
      match kind with
      | .spawn => .error "devenv did not answer the spawn"
      | .snapshot => .error "devenv did not answer the snapshot"
  | .notConnected => .error ("devenv " ++ host ++ " is not connected")
  | .closed => .error "devenv connection closed"
  | .notHosted => .error ("session " ++ uuidText id ++ " has no connected devenv")

theorem Outcome.result_ok {kind : Kind} {id : Uuid} {host : String} {outcome : Outcome}
    {answer : Answer} (h : outcome.result kind id host = .ok answer) :
    outcome = .answered answer := by
  unfold Outcome.result at h
  split at h
  · cases h
  · cases h
    rfl
  · split at h <;> cases h
  · split at h <;> cases h
  · split at h <;> cases h
  · cases h
  · cases h
  · cases h

inductive Stage
  | absent
  /-- Its frame is not sent yet. -/
  | registered
  /-- It waits on its channel. -/
  | waiting
  /-- It cleans up, and returns next. -/
  | leaving (outcome : Outcome)
  | returned (outcome : Outcome)
  deriving DecidableEq, Repr

structure Call where
  kind : Kind
  id : Uuid
  /-- The ident it is routed to; empty for a session that is not hosted. -/
  host : String
  stage : Stage
  slot : Slot
  /-- The connection its frame was queued on. -/
  queuedOn : Option ConnectionId
  /-- Since then that connection has ended, or another has announced the host's ident. -/
  superseded : Bool
  deriving DecidableEq, Repr

/-- A call that has not been made. -/
def Call.unmade : Call := ⟨.spawn, 0, "", .absent, .empty, none, false⟩

/-- A call of that kind may still have its pending entry. -/
def Stage.keepsPending : Stage → Kind → Bool
  | .registered, _ | .waiting, _ => true
  | .leaving (.answered _), .spawn | .leaving .lost, .spawn => false
  | .leaving _, _ => true
  | .absent, _ | .returned _, _ => false

/-- The call has failed, or is bound to fail, with a lost connection. -/
def Call.isLost (c : Call) : Bool :=
  match c.stage with
  | .registered | .waiting => c.slot = .lost
  | .leaving outcome | .returned outcome => outcome = .lost
  | .absent => false

inductive Connection
  | unopened
  /-- `ident` is the key of its last hello. -/
  | running (ident : Option String) (writing : Bool)
  /-- A second ident that it had announced may keep its writer. -/
  | ended (writing : Bool)
  deriving DecidableEq, Repr

/-- `LinkState`, the connections and the calls. -/
structure Link where
  connections : String → Option ConnectionId
  sessionHost : Uuid → Option String
  currentIdent : String
  pendingSpawns : ReplyId → Option String
  pendingSnapshots : ReplyId → Option String
  conn : ConnectionId → Connection
  calls : ReplyId → Call
  /-- The answers received so far. -/
  received : List (ReplyId × Answer)

inductive Action
  | setCurrentIdent (ident : Option String)
  | connect (k : ConnectionId)
  | hello (k : ConnectionId) (ident : Option String) (sessions : List Uuid)
  /-- `data` is `none` when it does not decode. -/
  | snapshotFrame (k : ConnectionId) (reply : ReplyId) (data : Option (List UInt8))
  | spawnResult (k : ConnectionId) (reply : ReplyId) (ok : Bool) (error : Option String)
  | exited (k : ConnectionId) (id : Uuid)
  /-- The writer task ends with a write error. -/
  | writerEnds (k : ConnectionId)
  /-- The read loop has ended, and its clean-up runs. -/
  | close (k : ConnectionId)
  | spawn (reply : ReplyId) (id : Uuid)
  | snapshot (reply : ReplyId) (id : Uuid)
  | send (reply : ReplyId)
  | receive (reply : ReplyId)
  | timeout (reply : ReplyId)
  | leave (reply : ReplyId)
  deriving DecidableEq, Repr

namespace Link

def new : Link :=
  { connections := fun _ => none, sessionHost := fun _ => none, currentIdent := defaultIdent,
    pendingSpawns := fun _ => none, pendingSnapshots := fun _ => none,
    conn := fun _ => .unopened, calls := fun _ => .unmade, received := [] }

def setCall (l : Link) (reply : ReplyId) (call : Call) : Link :=
  { l with calls := Function.update l.calls reply call }

def setConn (l : Link) (k : ConnectionId) (connection : Connection) : Link :=
  { l with conn := Function.update l.conn k connection }

/-- Writes to a call's channel. -/
def fill (l : Link) (reply : ReplyId) (slot : Slot) : Link :=
  l.setCall reply { l.calls reply with slot := slot }

def failPendingFor (l : Link) (ident : String) : Link :=
  { l with
    pendingSpawns := fun r => if l.pendingSpawns r = some ident then none else l.pendingSpawns r
    pendingSnapshots := fun r =>
      if l.pendingSnapshots r = some ident then none else l.pendingSnapshots r
    calls := fun r =>
      if l.pendingSpawns r = some ident ∨ l.pendingSnapshots r = some ident then
        { l.calls r with slot := .lost }
      else l.calls r }

/-- The connection of some calls is gone. -/
def supersede (l : Link) (gone : Call → Bool) : Link :=
  { l with
    calls := fun r =>
      { l.calls r with superseded := (l.calls r).superseded || gone (l.calls r) } }

/-- The call was queued on another connection than `k`, for that ident. -/
def queuedElsewhere (k : ConnectionId) (ident : String) (c : Call) : Bool :=
  c.host = ident && c.queuedOn.any (· ≠ k)

/-- What a hello changes in the tables. -/
def takeHello (l : Link) (k : ConnectionId) (key : String) (ids : List Uuid) : Link :=
  { l.failPendingFor key with
    connections := Function.update l.connections key (some k)
    sessionHost := fun id =>
      if id ∈ ids then some key
      else if l.sessionHost id = some key then none else l.sessionHost id }

/-- The clean-up of a connection that had announced an ident. -/
def dropConnection (l : Link) (k : ConnectionId) (key : String) : Link :=
  let cleared : Link :=
    if l.connections key = some k then
      { l with connections := Function.update l.connections key none }
    else l
  cleared.failPendingFor key

def forgetSession (l : Link) (id : Uuid) : Link :=
  { l with sessionHost := Function.update l.sessionHost id none }

def dropPendingSpawn (l : Link) (reply : ReplyId) : Link :=
  { l with pendingSpawns := Function.update l.pendingSpawns reply none }

def dropPendingSnapshot (l : Link) (reply : ReplyId) : Link :=
  { l with pendingSnapshots := Function.update l.pendingSnapshots reply none }

def receiveAnswer (l : Link) (reply : ReplyId) (answer : Answer) : Link :=
  { l with received := l.received ++ [(reply, answer)] }

def step (l : Link) : Action → Option Link
  | .setCurrentIdent ident => some { l with currentIdent := ident.getD defaultIdent }
  | .connect k =>
      match l.conn k with
      | .unopened => some (l.setConn k (.running none true))
      | _ => none
  | .hello k ident sessions =>
      match l.conn k with
      | .running _ writing =>
          let key := ident.getD defaultIdent
          some (((l.supersede (queuedElsewhere k key)).takeHello k key sessions).setConn k
            (.running (some key) writing))
      | _ => none
  | .snapshotFrame k reply data =>
      match l.conn k with
      | .running _ _ =>
          let l' := match data with
            | some bytes => l.receiveAnswer reply (.bytes bytes)
            | none => l
          match l.pendingSnapshots reply with
          | none => some l'
          | some _ =>
              let slot := match data with
                | some bytes => Slot.sent (.bytes bytes)
                | none => Slot.garbled
              some ((l'.dropPendingSnapshot reply).fill reply slot)
      | _ => none
  | .spawnResult k reply ok error =>
      match l.conn k with
      | .running _ _ =>
          let answer := if ok then Answer.spawned else .refused (error.getD "spawn failed")
          match l.pendingSpawns reply with
          | none => some (l.receiveAnswer reply answer)
          | some _ =>
              some (((l.receiveAnswer reply answer).dropPendingSpawn reply).fill reply
                (.sent answer))
      | _ => none
  | .exited k id =>
      match l.conn k with
      | .running _ _ => some (l.forgetSession id)
      | _ => none
  | .writerEnds k =>
      match l.conn k with
      | .running ident _ => some (l.setConn k (.running ident false))
      | .ended _ => some (l.setConn k (.ended false))
      | .unopened => none
  | .close k =>
      match l.conn k with
      | .running ident writing =>
          let left := (l.supersede fun c => c.queuedOn = some k).setConn k (.ended writing)
          match ident with
          | some key => some (left.dropConnection k key)
          | none => some left
      | _ => none
  | .spawn reply id =>
      match (l.calls reply).stage with
      | .absent =>
          let call : Call := ⟨.spawn, id, l.currentIdent, .registered, .empty, none, false⟩
          match l.connections l.currentIdent with
          | none => some (l.setCall reply { call with stage := .returned .notConnected })
          | some _ =>
              some { l.setCall reply call with
                sessionHost := Function.update l.sessionHost id (some l.currentIdent)
                pendingSpawns := Function.update l.pendingSpawns reply (some l.currentIdent) }
      | _ => none
  | .snapshot reply id =>
      match (l.calls reply).stage, l.sessionHost id with
      | .absent, none =>
          some (l.setCall reply ⟨.snapshot, id, "", .returned .notHosted, .empty, none, false⟩)
      | .absent, some host =>
          some { l.setCall reply ⟨.snapshot, id, host, .registered, .empty, none, false⟩ with
            pendingSnapshots := Function.update l.pendingSnapshots reply (some host) }
      | _, _ => none
  | .send reply =>
      let call := l.calls reply
      match call.stage, l.connections call.host with
      | .registered, none => some (l.setCall reply { call with stage := .leaving .notConnected })
      | .registered, some k =>
          match l.conn k with
          | .running _ true | .ended true =>
              some (l.setCall reply { call with stage := .waiting, queuedOn := some k })
          | _ => some (l.setCall reply { call with stage := .leaving .closed })
      | _, _ => none
  | .receive reply =>
      let call := l.calls reply
      match call.stage, call.slot with
      | .waiting, .sent (.refused message) =>
          some (l.setCall reply { call with stage := .leaving (.answered (.refused message)) })
      | .waiting, .sent answer =>
          some (l.setCall reply { call with stage := .returned (.answered answer) })
      | .waiting, .lost => some (l.setCall reply { call with stage := .leaving .lost })
      | .waiting, .garbled => some (l.setCall reply { call with stage := .leaving .garbled })
      | _, _ => none
  | .timeout reply =>
      let call := l.calls reply
      match call.stage, call.slot with
      | .waiting, .empty => some (l.setCall reply { call with stage := .leaving .timedOut })
      | _, _ => none
  | .leave reply =>
      let call := l.calls reply
      match call.stage, call.kind with
      | .leaving outcome, .spawn =>
          let left := if call.stage.keepsPending .spawn then l.dropPendingSpawn reply else l
          some ((left.forgetSession call.id).setCall reply { call with stage := .returned outcome })
      | .leaving outcome, .snapshot =>
          some ((l.dropPendingSnapshot reply).setCall reply
            { call with stage := .returned outcome })
      | _, _ => none

/-! ## What a call may rely on -/

/-- No pending entry of a call that has returned. -/
def NothingLeft (l : Link) : Prop :=
  ∀ r outcome, (l.calls r).stage = .returned outcome →
    l.pendingSpawns r = none ∧ l.pendingSnapshots r = none

/-- A call that got an answer, and so one that succeeded, got what was received under its reply
id. -/
def OwnAnswer (l : Link) : Prop :=
  ∀ r outcome answer, (l.calls r).stage = .returned outcome →
    (outcome = .answered answer ∨
      outcome.result (l.calls r).kind (l.calls r).id (l.calls r).host = .ok answer) →
    (r, answer) ∈ l.received

/-- **A call fails with a lost connection** only if its frame was queued on a connection that has
since ended or been superseded. -/
def OwnConnection (l : Link) : Prop :=
  ∀ r, (l.calls r).isLost → (l.calls r).queuedOn ≠ none ∧ (l.calls r).superseded

@[simp] theorem dropConnection_calls (l : Link) (k : ConnectionId) (key : String) :
    (l.dropConnection k key).calls = (l.failPendingFor key).calls := by
  unfold dropConnection
  split <;> rfl

/-! ## Pending entries -/

/-- A pending entry is that of a call that waits for its answer, or is about to remove it. -/
structure Kept (l : Link) : Prop where
  spawn : ∀ r host, l.pendingSpawns r = some host → (l.calls r).kind = .spawn ∧
    (l.calls r).host = host ∧ (l.calls r).slot = .empty ∧ (l.calls r).stage.keepsPending .spawn
  snapshot : ∀ r host, l.pendingSnapshots r = some host → (l.calls r).kind = .snapshot ∧
    (l.calls r).host = host ∧ (l.calls r).slot = .empty ∧ (l.calls r).stage.keepsPending .snapshot
  answer : ∀ r answer, ((l.calls r).slot = .sent answer ∨
    (l.calls r).stage = .leaving (.answered answer) ∨
    (l.calls r).stage = .returned (.answered answer)) → (r, answer) ∈ l.received
  unqueued : ∀ r, (l.calls r).stage = .absent ∨ (l.calls r).stage = .registered →
    (l.calls r).queuedOn = none

theorem Kept.new : Kept new := by
  constructor
  all_goals simp [Link.new, Call.unmade]

section Steps

variable {l l' : Link}

theorem Kept.setConn (h : Kept l) (k : ConnectionId) (connection : Connection) :
    Kept (l.setConn k connection) := ⟨h.spawn, h.snapshot, h.answer, h.unqueued⟩

theorem Kept.forgetSession (h : Kept l) (id : Uuid) : Kept (l.forgetSession id) :=
  ⟨h.spawn, h.snapshot, h.answer, h.unqueued⟩

theorem Kept.dropPendingSpawn (h : Kept l) (reply : ReplyId) :
    Kept (l.dropPendingSpawn reply) := by
  refine ⟨fun r host hpending => ?_, h.snapshot, h.answer, h.unqueued⟩
  simp only [Link.dropPendingSpawn, Function.update_apply] at hpending
  split at hpending
  · cases hpending
  · exact h.spawn r host hpending

theorem Kept.dropPendingSnapshot (h : Kept l) (reply : ReplyId) :
    Kept (l.dropPendingSnapshot reply) := by
  refine ⟨h.spawn, fun r host hpending => ?_, h.answer, h.unqueued⟩
  simp only [Link.dropPendingSnapshot, Function.update_apply] at hpending
  split at hpending
  · cases hpending
  · exact h.snapshot r host hpending

theorem Kept.supersede (h : Kept l) (gone : Call → Bool) : Kept (l.supersede gone) :=
  ⟨h.spawn, h.snapshot, h.answer, h.unqueued⟩

theorem Kept.failPendingFor (h : Kept l) (ident : String) : Kept (l.failPendingFor ident) := by
  obtain ⟨h1, h2, h3, h4⟩ := h
  constructor
  all_goals simp only [Link.failPendingFor]
  all_goals grind

theorem Kept.takeHello (h : Kept l) (k : ConnectionId) (key : String) (ids : List Uuid) :
    Kept (l.takeHello k key ids) := by
  obtain ⟨h1, h2, h3, h4⟩ := h.failPendingFor key
  exact ⟨h1, h2, h3, h4⟩

theorem Kept.dropConnection (h : Kept l) (k : ConnectionId) (key : String) :
    Kept (l.dropConnection k key) := by
  apply Kept.failPendingFor
  split
  · exact ⟨h.spawn, h.snapshot, h.answer, h.unqueued⟩
  · exact h

theorem Kept.receiveAnswer (h : Kept l) (reply : ReplyId) (answer : Answer) :
    Kept (l.receiveAnswer reply answer) := by
  obtain ⟨h1, h2, h3, h4⟩ := h
  refine ⟨h1, h2, fun r a ha => ?_, h4⟩
  exact List.mem_append_left _ (h3 r a ha)

theorem Kept.answerSpawn (h : Kept l) (reply : ReplyId) (answer : Answer)
    (hreceived : (reply, answer) ∈ l.received) {host : String}
    (hpending : l.pendingSpawns reply = some host) :
    Kept ((l.dropPendingSpawn reply).fill reply (.sent answer)) := by
  obtain ⟨h1, h2, h3, h4⟩ := h
  constructor
  all_goals simp only [Link.dropPendingSpawn, Link.fill, Link.setCall, Function.update_apply]
  all_goals grind

theorem Kept.answerSnapshot (h : Kept l) (reply : ReplyId) (slot : Slot)
    (hreceived : ∀ answer, slot = .sent answer → (reply, answer) ∈ l.received)
    {host : String} (hpending : l.pendingSnapshots reply = some host) :
    Kept ((l.dropPendingSnapshot reply).fill reply slot) := by
  obtain ⟨h1, h2, h3, h4⟩ := h
  constructor
  all_goals simp only [Link.dropPendingSnapshot, Link.fill, Link.setCall, Function.update_apply]
  all_goals grind

/-- A new call, with its pending entry. -/
theorem Kept.spawn' (h : Kept l) {reply : ReplyId} (habsent : (l.calls reply).stage = .absent)
    (id : Uuid) (host : String) (hosts : Uuid → Option String) :
    Kept { l.setCall reply ⟨.spawn, id, host, .registered, .empty, none, false⟩ with
      sessionHost := hosts
      pendingSpawns := Function.update l.pendingSpawns reply (some host) } := by
  obtain ⟨h1, h2, h3, h4⟩ := h
  constructor
  all_goals simp only [Link.setCall, Function.update_apply]
  all_goals grind [Stage.keepsPending]

theorem Kept.snapshot' (h : Kept l) {reply : ReplyId} (habsent : (l.calls reply).stage = .absent)
    (id : Uuid) (host : String) :
    Kept { l.setCall reply ⟨.snapshot, id, host, .registered, .empty, none, false⟩ with
      pendingSnapshots := Function.update l.pendingSnapshots reply (some host) } := by
  obtain ⟨h1, h2, h3, h4⟩ := h
  constructor
  all_goals simp only [Link.setCall, Function.update_apply]
  all_goals grind [Stage.keepsPending]

/-- A call that goes on to another stage. -/
theorem Kept.setStage (h : Kept l) (reply : ReplyId) {stage : Stage}
    (queuedOn : Option ConnectionId)
    (hspawn : ∀ host, l.pendingSpawns reply = some host → stage.keepsPending .spawn)
    (hsnapshot : ∀ host, l.pendingSnapshots reply = some host → stage.keepsPending .snapshot)
    (hanswer : ∀ answer,
      stage = .leaving (.answered answer) ∨ stage = .returned (.answered answer) →
      (l.calls reply).slot = .sent answer ∨ (l.calls reply).stage = .leaving (.answered answer))
    (hunqueued : stage ≠ .absent ∧ stage ≠ .registered) :
    Kept (l.setCall reply { l.calls reply with stage := stage, queuedOn := queuedOn }) := by
  obtain ⟨h1, h2, h3, h4⟩ := h
  constructor
  all_goals simp only [Link.setCall, Function.update_apply]
  all_goals grind

theorem Kept.made (h : Kept l) {reply : ReplyId} (habsent : (l.calls reply).stage = .absent)
    {c : Call} {outcome : Outcome} (hstage : c.stage = .returned outcome)
    (hslot : c.slot = .empty) (houtcome : ∀ answer, outcome ≠ .answered answer) :
    Kept (l.setCall reply c) := by
  obtain ⟨h1, h2, h3, h4⟩ := h
  constructor
  all_goals simp only [Link.setCall, Function.update_apply]
  all_goals grind [Stage.keepsPending]

theorem Kept.step {a : Action} (h : Kept l) (hstep : l.step a = some l') : Kept l' := by
  cases a with
  | setCurrentIdent ident =>
      cases hstep
      exact ⟨h.spawn, h.snapshot, h.answer, h.unqueued⟩
  | connect k =>
      simp only [Link.step] at hstep
      split at hstep <;> cases hstep
      exact h.setConn k _
  | hello k ident sessions =>
      simp only [Link.step] at hstep
      split at hstep <;> cases hstep
      exact ((h.supersede _).takeHello k _ sessions).setConn k _
  | snapshotFrame k reply data =>
      simp only [Link.step] at hstep
      split at hstep
      · cases data with
        | some bytes =>
            split at hstep <;> cases hstep
            · exact h.receiveAnswer _ _
            · refine (h.receiveAnswer reply (.bytes bytes)).answerSnapshot _ _ ?_ ‹_›
              rintro answer ⟨⟩
              simp [Link.receiveAnswer]
        | none =>
            split at hstep <;> cases hstep
            · exact h
            · exact h.answerSnapshot _ _ (fun answer hslot => by cases hslot) ‹_›
      · cases hstep
  | spawnResult k reply ok error =>
      simp only [Link.step] at hstep
      split at hstep
      · split at hstep <;> cases hstep
        · exact h.receiveAnswer _ _
        · exact (h.receiveAnswer reply _).answerSpawn _ _ (by simp [Link.receiveAnswer]) ‹_›
      · cases hstep
  | exited k id =>
      simp only [Link.step] at hstep
      split at hstep <;> cases hstep
      exact h.forgetSession id
  | writerEnds k =>
      simp only [Link.step] at hstep
      split at hstep <;> cases hstep
      · exact h.setConn k _
      · exact h.setConn k _
  | close k =>
      simp only [Link.step] at hstep
      split at hstep
      · split at hstep <;> cases hstep
        · exact ((h.supersede _).setConn k _).dropConnection k _
        · exact (h.supersede _).setConn k _
      · cases hstep
  | spawn reply id =>
      simp only [Link.step] at hstep
      split at hstep
      · split at hstep <;> cases hstep
        · exact h.made ‹_› rfl rfl (by simp)
        · exact h.spawn' ‹_› _ _ _
      · cases hstep
  | snapshot reply id =>
      simp only [Link.step] at hstep
      split at hstep <;> cases hstep
      · exact h.made ‹_› rfl rfl (by simp)
      · exact h.snapshot' ‹_› _ _
  | send reply =>
      simp only [Link.step] at hstep
      split at hstep
      · cases hstep
        refine h.setStage reply _ ?_ ?_ ?_ ?_
        all_goals simp [Stage.keepsPending]
      · split at hstep <;> cases hstep
        all_goals refine h.setStage reply _ ?_ ?_ ?_ ?_
        all_goals simp [Stage.keepsPending]
      · cases hstep
  | receive reply =>
      simp only [Link.step] at hstep
      have hslot : ∀ host,
          l.pendingSpawns reply = some host ∨ l.pendingSnapshots reply = some host →
          (l.calls reply).slot = .empty := by
        rintro host (hpending | hpending)
        · exact (h.spawn reply host hpending).2.2.1
        · exact (h.snapshot reply host hpending).2.2.1
      split at hstep <;> cases hstep
      all_goals refine h.setStage reply _ ?_ ?_ ?_ ?_
      all_goals grind [Stage.keepsPending]
  | timeout reply =>
      simp only [Link.step] at hstep
      split at hstep <;> cases hstep
      refine h.setStage reply _ ?_ ?_ ?_ ?_
      all_goals simp [Stage.keepsPending]
  | leave reply =>
      simp only [Link.step] at hstep
      have hanswer : ∀ outcome answer, (l.calls reply).stage = .leaving outcome →
          Stage.returned outcome = .returned (.answered answer) →
          (l.calls reply).stage = .leaving (.answered answer) := by
        rintro outcome answer hstage ⟨⟩
        exact hstage
      split at hstep
      · rename_i outcome hstage hkind
        split at hstep
        · cases hstep
          refine ((h.dropPendingSpawn reply).forgetSession _).setStage reply _ ?_ ?_ ?_ ?_
          · simp [Link.forgetSession, Link.dropPendingSpawn]
          · exact fun host hpending => absurd (h.snapshot reply host hpending).1 (by simp [hkind])
          · exact fun answer hstage' => .inr (hanswer _ _ hstage (hstage'.resolve_left (by simp)))
          · simp
        · rename_i hkeeps
          cases hstep
          refine (h.forgetSession _).setStage reply _ ?_ ?_ ?_ ?_
          · exact fun host hpending => absurd (h.spawn reply host hpending).2.2.2 hkeeps
          · exact fun host hpending => absurd (h.snapshot reply host hpending).1 (by simp [hkind])
          · exact fun answer hstage' => .inr (hanswer _ _ hstage (hstage'.resolve_left (by simp)))
          · simp
      · rename_i outcome hstage hkind
        cases hstep
        refine (h.dropPendingSnapshot reply).setStage reply _ ?_ ?_ ?_ ?_
        · exact fun host hpending => absurd (h.spawn reply host hpending).1 (by simp [hkind])
        · simp [Link.dropPendingSnapshot]
        · exact fun answer hstage' => .inr (hanswer _ _ hstage (hstage'.resolve_left (by simp)))
        · simp
      · cases hstep

/-! ## Lost connections -/

/-- The call waits for an answer of the ident's connection. -/
def Awaits (l : Link) (r : ReplyId) (ident : String) : Prop :=
  ((l.calls r).stage = .registered ∨ (l.calls r).stage = .waiting) ∧
    (l.pendingSpawns r = some ident ∨ l.pendingSnapshots r = some ident)

/-- A hello or the end of a connection fails calls that were queued on a connection which has ended
or been superseded by then. -/
def FailsItsOwn (l : Link) : Action → Prop
  | .hello k ident _ => ∀ r, l.Awaits r (ident.getD defaultIdent) →
      ∃ q, (l.calls r).queuedOn = some q ∧ ((l.calls r).superseded ∨ q ≠ k)
  | .close k => ∀ key writing, l.conn k = .running (some key) writing → ∀ r, l.Awaits r key →
      ∃ q, (l.calls r).queuedOn = some q ∧ ((l.calls r).superseded ∨ q = k)
  | _ => True

/-- Failing an ident's calls is right exactly when all of them have lost their connection. -/
theorem own_failPendingFor_iff (hk : Kept l) (h : l.OwnConnection) (gone : Call → Bool)
    (ident : String) : ((l.supersede gone).failPendingFor ident).OwnConnection ↔
      ∀ r, l.Awaits r ident → (l.calls r).queuedOn ≠ none ∧
        ((l.calls r).superseded || gone (l.calls r)) := by
  constructor
  · rintro hown r ⟨hstage, hpending⟩
    have hfails : (((l.supersede gone).failPendingFor ident).calls r) =
        { l.calls r with
          superseded := (l.calls r).superseded || gone (l.calls r), slot := .lost } :=
      if_pos hpending
    have hr := hown r
    rw [hfails] at hr
    refine hr ?_
    rcases hstage with hstage | hstage <;> simp [Call.isLost, hstage]
  · intro hall r hlost
    by_cases hpending : l.pendingSpawns r = some ident ∨ l.pendingSnapshots r = some ident
    · have hcall : ((l.supersede gone).failPendingFor ident).calls r =
          { l.calls r with
            superseded := (l.calls r).superseded || gone (l.calls r), slot := .lost } :=
        if_pos hpending
      rw [hcall] at hlost ⊢
      -- a pending call is in its first two stages, or leaves for another reason
      have hstage := h r
      have hspawn := hk.spawn r ident
      have hsnapshot := hk.snapshot r ident
      have hawaits := hall r
      simp only [Awaits] at hawaits
      grind [Call.isLost, Stage.keepsPending]
    · have hcall : ((l.supersede gone).failPendingFor ident).calls r =
          { l.calls r with superseded := (l.calls r).superseded || gone (l.calls r) } :=
        if_neg hpending
      rw [hcall] at hlost ⊢
      obtain ⟨hqueued, hsuperseded⟩ := h r hlost
      exact ⟨hqueued, by simp [hsuperseded]⟩

/-- It is a matter of the calls. -/
theorem OwnConnection.of_calls (h : l.OwnConnection) (hcalls : l'.calls = l.calls) :
    l'.OwnConnection := by
  rw [OwnConnection, hcalls]
  exact h

theorem OwnConnection.setCall (h : l.OwnConnection) {reply : ReplyId} {c : Call}
    (hlost : c.isLost → c.queuedOn ≠ none ∧ c.superseded) : (l.setCall reply c).OwnConnection := by
  intro r
  simp only [Link.setCall, Function.update_apply]
  split
  · exact hlost
  · exact h r

theorem OwnConnection.fill (h : l.OwnConnection) (reply : ReplyId) {slot : Slot}
    (hslot : slot ≠ .lost) : (l.fill reply slot).OwnConnection := by
  refine h.setCall fun hlost => h reply ?_
  simp only [Call.isLost] at hlost ⊢
  grind

theorem OwnConnection.supersede (h : l.OwnConnection) (gone : Call → Bool) :
    (l.supersede gone).OwnConnection := by
  intro r hlost
  obtain ⟨hqueued, hsuperseded⟩ := h r hlost
  exact ⟨hqueued, by simp [Link.supersede, hsuperseded]⟩

theorem own_hello_iff (hk : Kept l) (h : l.OwnConnection) {k : ConnectionId}
    {ident : Option String} {sessions : List Uuid}
    (hstep : l.step (.hello k ident sessions) = some l') :
    l'.OwnConnection ↔ l.FailsItsOwn (.hello k ident sessions) := by
  simp only [Link.step] at hstep
  split at hstep <;> cases hstep
  refine (own_failPendingFor_iff hk h (queuedElsewhere k (ident.getD defaultIdent)) _).trans ?_
  refine forall₂_congr fun r hawaits => ?_
  have hhost : (l.calls r).host = ident.getD defaultIdent := by
    rcases hawaits.2 with hpending | hpending
    · exact (hk.spawn r _ hpending).2.1
    · exact (hk.snapshot r _ hpending).2.1
  cases hqueued : (l.calls r).queuedOn with
  | none => simp
  | some q => simp [queuedElsewhere, hhost, hqueued]

theorem own_close_iff (hk : Kept l) (h : l.OwnConnection) {k : ConnectionId}
    (hstep : l.step (.close k) = some l') : l'.OwnConnection ↔ l.FailsItsOwn (.close k) := by
  simp only [Link.step] at hstep
  split at hstep
  · rename_i ident writing hconn
    split at hstep <;> cases hstep
    · rename_i key
      have hown := own_failPendingFor_iff hk h (fun c => c.queuedOn = some k) key
      have heq : ∀ x, OwnConnection (((l.supersede fun c => c.queuedOn = some k).setConn k
          x).dropConnection k key) ↔
          ((l.supersede fun c => c.queuedOn = some k).failPendingFor key).OwnConnection := by
        intro x
        rw [OwnConnection, OwnConnection, dropConnection_calls]
        rfl
      rw [heq, hown]
      simp only [FailsItsOwn, hconn, Connection.running.injEq, Option.some.injEq, and_imp]
      constructor
      · rintro hall _ _ rfl - r hawaits
        obtain ⟨hqueued, hgone⟩ := hall r hawaits
        obtain ⟨q, hq⟩ := Option.ne_none_iff_exists'.mp hqueued
        exact ⟨q, hq, by simpa [hq] using hgone⟩
      · intro hall r hawaits
        obtain ⟨q, hq, hgone⟩ := hall key writing rfl rfl r hawaits
        exact ⟨by simp [hq], by simpa [hq] using hgone⟩
    · simp only [FailsItsOwn, hconn]
      constructor
      · rintro - key writing hrunning
        cases hrunning
      · rintro -
        exact OwnConnection.of_calls (h.supersede fun c => c.queuedOn = some k) rfl
  · cases hstep

theorem own_step_iff (hk : Kept l) (h : l.OwnConnection) {a : Action}
    (hstep : l.step a = some l') : l'.OwnConnection ↔ l.FailsItsOwn a := by
  have hlost := h
  cases a with
  | hello k ident sessions => exact own_hello_iff hk h hstep
  | close k => exact own_close_iff hk h hstep
  | setCurrentIdent ident =>
      cases hstep
      exact iff_of_true (h.of_calls rfl) trivial
  | connect k =>
      simp only [Link.step] at hstep
      split at hstep <;> cases hstep
      exact iff_of_true (h.of_calls rfl) trivial
  | snapshotFrame k reply data =>
      refine iff_of_true ?_ trivial
      simp only [Link.step] at hstep
      split at hstep
      · cases data with
        | some bytes =>
            split at hstep <;> cases hstep
            · exact h.of_calls rfl
            · exact (h.of_calls rfl).fill reply (by simp)
        | none =>
            split at hstep <;> cases hstep
            · exact h
            · exact (h.of_calls rfl).fill reply (by simp)
      · cases hstep
  | spawnResult k reply ok error =>
      refine iff_of_true ?_ trivial
      simp only [Link.step] at hstep
      split at hstep
      · split at hstep <;> cases hstep
        · exact h.of_calls rfl
        · exact (h.of_calls rfl).fill reply (by simp)
      · cases hstep
  | exited k id =>
      simp only [Link.step] at hstep
      split at hstep <;> cases hstep
      exact iff_of_true (h.of_calls rfl) trivial
  | writerEnds k =>
      simp only [Link.step] at hstep
      split at hstep <;> cases hstep
      all_goals exact iff_of_true (h.of_calls rfl) trivial
  | spawn reply id =>
      refine iff_of_true ?_ trivial
      simp only [Link.step] at hstep
      split at hstep
      · split at hstep <;> cases hstep
        · exact h.setCall (by simp [Call.isLost])
        · refine OwnConnection.of_calls (l := l.setCall reply _) (h.setCall ?_) rfl
          simp [Call.isLost]
      · cases hstep
  | snapshot reply id =>
      refine iff_of_true ?_ trivial
      simp only [Link.step] at hstep
      split at hstep <;> cases hstep
      · exact h.setCall (by simp [Call.isLost])
      · refine OwnConnection.of_calls (l := l.setCall reply _) (h.setCall ?_) rfl
        simp [Call.isLost]
  | send reply =>
      refine iff_of_true ?_ trivial
      simp only [Link.step] at hstep
      have hunqueued := hk.unqueued reply
      have hreply := h reply
      split at hstep
      · cases hstep
        exact h.setCall (by simp [Call.isLost])
      · split at hstep <;> cases hstep
        all_goals refine h.setCall ?_
        all_goals grind [Call.isLost]
      · cases hstep
  | receive reply =>
      refine iff_of_true ?_ trivial
      simp only [Link.step] at hstep
      have hreply := h reply
      split at hstep <;> cases hstep
      all_goals refine h.setCall ?_
      all_goals grind [Call.isLost]
  | timeout reply =>
      refine iff_of_true ?_ trivial
      simp only [Link.step] at hstep
      split at hstep <;> cases hstep
      exact h.setCall (by simp [Call.isLost])
  | leave reply =>
      refine iff_of_true ?_ trivial
      simp only [Link.step] at hstep
      have hreply := h reply
      split at hstep
      · split at hstep <;> cases hstep
        all_goals refine OwnConnection.setCall (h.of_calls rfl) ?_
        all_goals grind [Call.isLost]
      · cases hstep
        refine OwnConnection.setCall (h.of_calls rfl) ?_
        grind [Call.isLost]
      · cases hstep

/-! ## Runs -/

theorem Kept.nothingLeft (h : Kept l) : l.NothingLeft := by
  intro r outcome hstage
  have hspawn := h.spawn r
  have hsnapshot := h.snapshot r
  rw [hstage] at hspawn hsnapshot
  constructor
  · by_contra hne
    obtain ⟨host, hhost⟩ := Option.ne_none_iff_exists'.mp hne
    exact absurd (hspawn host hhost).2.2.2 (by simp [Stage.keepsPending])
  · by_contra hne
    obtain ⟨host, hhost⟩ := Option.ne_none_iff_exists'.mp hne
    exact absurd (hsnapshot host hhost).2.2.2 (by simp [Stage.keepsPending])

theorem Kept.ownAnswer (h : Kept l) : l.OwnAnswer := by
  intro r outcome answer hstage hanswer
  have houtcome : outcome = .answered answer := hanswer.elim id Outcome.result_ok
  subst houtcome
  exact h.answer r answer (.inr (.inr hstage))

/-- An outcome is final. -/
theorem returned_step {a : Action} (hstep : l.step a = some l') {r : ReplyId} {outcome : Outcome}
    (h : (l.calls r).stage = .returned outcome) : (l'.calls r).stage = .returned outcome := by
  cases a
  all_goals simp only [Link.step] at hstep
  all_goals repeat' split at hstep
  all_goals cases hstep
  all_goals try exact h
  all_goals simp only [takeHello, dropConnection_calls, Link.failPendingFor, Link.supersede,
    Link.setCall,
    Link.setConn, Link.fill, Link.forgetSession, Link.receiveAnswer, Link.dropPendingSpawn,
    Link.dropPendingSnapshot, Function.update_apply]
  all_goals grind

theorem OwnConnection.new : OwnConnection new := fun r hlost => by
  simp [Link.new, Call.unmade, Call.isLost] at hlost

end Steps

/-- **Calls fail only with their own connection**, in every run in which the hellos and the ends of
connections meet them queued on a connection that is gone by then; a step keeps this exactly when it
does so. In every run a call has one outcome, an answer goes to the call with its reply id, and a
call that has returned leaves no pending entry. -/
theorem calls_fail_with_own_connection (l : Link) :
    (Run step anyStep new l → l.NothingLeft ∧ l.OwnAnswer ∧
      ∀ l' r outcome, Run step anyStep l l' → (l.calls r).stage = .returned outcome →
        (l'.calls r).stage = .returned outcome) ∧
    (Run step FailsItsOwn new l → l.OwnConnection ∧
      ∀ a l', l.step a = some l' → (l'.OwnConnection ↔ l.FailsItsOwn a)) := by
  constructor
  · intro hrun
    have hkept : Kept l := hrun.invariant (fun _ _ _ h _ hstep => h.step hstep) Kept.new
    refine ⟨hkept.nothingLeft, hkept.ownAnswer, ?_⟩
    intro l' r outcome hrun' hstage
    exact hrun'.invariant (I := fun m => (m.calls r).stage = .returned outcome)
      (fun _ _ _ h _ hstep => returned_step hstep h) hstage
  · intro hrun
    have hpreserved : Preserved step FailsItsOwn Kept := fun _ _ _ h _ hstep => h.step hstep
    have hkept : Kept l := hrun.invariant hpreserved Kept.new
    have hown : l.OwnConnection :=
      hrun.invariant_of hpreserved
        (fun _ _ _ hk h hok hstep => (own_step_iff hk h hstep).mpr hok) Kept.new .new
    exact ⟨hown, fun a l' hstep => own_step_iff hkept hown hstep⟩

/-- A call queued on the newer of two connections is failed by the end of the older one. -/
theorem call_fails_with_superseded_connection : ∃ l, Run step anyStep new l ∧
    (l.calls 7).stage = .returned .lost ∧ (l.calls 7).queuedOn = some 1 ∧
    l.conn 1 = .running (some defaultIdent) true ∧ l.connections defaultIdent = some 1 ∧
    ¬ l.OwnConnection := by
  have hrun : ∃ l, runList step new
      [.connect 0, .hello 0 none [], .connect 1, .hello 1 none [], .spawn 7 5, .send 7, .close 0,
        .receive 7, .leave 7] = some l ∧
      (l.calls 7).stage = .returned .lost ∧ (l.calls 7).queuedOn = some 1 ∧
      l.conn 1 = .running (some defaultIdent) true ∧ l.connections defaultIdent = some 1 ∧
      (l.calls 7).superseded = false := ⟨_, rfl, rfl, rfl, rfl, rfl, rfl⟩
  obtain ⟨l, hl, hstage, hqueued, hconn, hcurrent, hsuperseded⟩ := hrun
  refine ⟨l, .of_runList _ hl, hstage, hqueued, hconn, hcurrent, fun hown => ?_⟩
  have hlost := (hown 7 (by simp [Call.isLost, hstage])).2
  rw [hsuperseded] at hlost
  cases hlost

/-- A call fails with the connection that it was queued on. -/
theorem calls_fail_with_own_connection_ended : ∃ l : Link,
    (l.calls 7).stage = .returned .lost ∧ l.conn 0 = .ended true ∧ l.OwnConnection := by
  have hnone : ∀ r, ¬ new.Awaits r defaultIdent := fun r h => by simp [Awaits, new] at h
  have hrun : ∃ l, Run step FailsItsOwn new l ∧ (l.calls 7).stage = .returned .lost ∧
      l.conn 0 = .ended true := by
    refine ⟨_, ((((((((Run.refl new).snoc (a := .connect 0) trivial rfl).snoc
      (a := .hello 0 none []) ?_ rfl).snoc (a := .spawn 7 5) trivial rfl).snoc
      (a := .send 7) trivial rfl).snoc (a := .close 0) ?_ rfl).snoc
      (a := .receive 7) trivial rfl).snoc (a := .leave 7) trivial rfl), rfl, rfl⟩
    · exact fun r h => absurd h (hnone r)
    · rintro key writing - r ⟨-, hpending | hpending⟩
      · change Function.update (fun _ => none) 7 (some defaultIdent) r = some key at hpending
        rw [Function.update_apply] at hpending
        split at hpending
        · subst r
          exact ⟨0, rfl, .inr rfl⟩
        · cases hpending
      · cases hpending
  obtain ⟨l, hl, hstage, hconn⟩ := hrun
  exact ⟨l, hstage, hconn, ((calls_fail_with_own_connection l).2 hl).1⟩

end Link

end Sulion.Devenv.Rpc
