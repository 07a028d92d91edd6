import Sulion.Lib.Transition
import Sulion.Pty.Records

set_option autoImplicit false

/-! # Moving a session to another devenv

`PtyManager::upgrade` ends the shell of a session, waits until `mark_dead` has taken the handle
away and recorded the exit, and spawns a new shell under the same id. `mark_dead` has one more
thing to do, `revoke_pty_credential`, and `spawn` registers a new credential under the same id.

The state is that of one session: its row, its handle, the link's fan-out, the shells and frames
of the devenvs, the broker's credential and the key file, and the places where the event task,
an upgrade and a deletion are. A step is one of theirs, of the link, of a devenv or of the
broker. A generated key is a number, each new one unused.
-/

namespace Sulion.Pty.Upgrade

open Sulion.Transition

/-- A generated key pair. -/
abbrev Key := Nat

/-- The broker's row in `pty_credentials`. -/
structure PtyCredential where
  publicKey : Key
  revoked : Bool
  deriving DecidableEq, Repr

/-! ## Where the tasks are -/

/-- A call of `revoke_pty_credential`. -/
inductive Revoke
  /-- The `DELETE` is about to be sent. -/
  | deleting
  /-- The `DELETE` has been sent. -/
  | awaiting
  /-- The key file is about to be removed. -/
  | unlinking
  deriving DecidableEq, Repr

/-- `run_events`, in the call of `mark_dead` it has taken. -/
inductive EventTask
  | idle
  | removing (exitCode : Option Int)
  | updating (exitCode : Option Int)
  | revoking (r : Revoke)
  deriving DecidableEq, Repr

/-- A call of `upgrade`, or none. -/
inductive UpgradeTask
  | idle
  /-- The handle has been read; `kill` comes next. -/
  | killing
  | waiting
  /-- In the loop, the handle has been looked up. -/
  | polled (handleGone : Bool)
  /-- The loop is over; `prepare_pty_credential` comes next. -/
  | preparing
  | writing (key : Key)
  | persisting (key : Key)
  | linking (key : Key)
  /-- The `Spawn` frame has been sent. -/
  | spawning (key : Key) (ident : String)
  | recording (key : Key) (ident : String)
  | looking (key : Key) (ident : String)
  | inserting (key : Key) (ident : String)
  | abandoning
  | abandonRevoking (r : Revoke)
  deriving DecidableEq, Repr

/-- A call of `delete`, or none. -/
inductive DeleteTask
  | idle
  | removed
  | recorded
  | revoking (r : Revoke)
  deriving DecidableEq, Repr

structure State where
  row : PtyRow
  /-- The handle in `sessions`, as the ident of its devenv. -/
  handle : Option String
  currentIdent : String
  /-- Whether the link has an output sender and a host for the session. -/
  fanOut : Bool
  spawnFrames : List Key
  /-- The key of the shell the awaited `SpawnResult` reports. -/
  spawnResult : Option Key
  /-- The running shells of the session, by the key each was started with. -/
  shells : List Key
  exitFrames : List (Option Int)
  events : List (Option Int)
  credential : Option PtyCredential
  /-- `DELETE` requests on their way to the broker. -/
  deletes : Nat
  keyFile : Option Key
  nextKey : Key
  eventTask : EventTask
  upgrade : UpgradeTask
  delete : DeleteTask
  /-- The key of the shell the last successful upgrade started. -/
  upgraded : Option Key
  /-- `delete` has been called. -/
  deleted : Bool
  deriving DecidableEq, Repr

/-- A session as `spawn` has left it, its shell on devenv `host`. -/
def established (key : Key) (host current : String) (row : PtyRow) : State where
  row := { row with state := .live, devenvIdent := some host }
  handle := some host
  currentIdent := current
  fanOut := true
  spawnFrames := []
  spawnResult := none
  shells := [key]
  exitFrames := []
  events := []
  credential := some ⟨key, false⟩
  deletes := 0
  keyFile := some key
  nextKey := key + 1
  eventTask := .idle
  upgrade := .idle
  delete := .idle
  upgraded := none
  deleted := false

/-! ## Steps -/

inductive Action
  /-- A shell ends. -/
  | exit (key : Key) (exitCode : Option Int)
  /-- The link handles an `Exited` frame. -/
  | exited
  | takeEvent
  | removeHandle
  | updateRow (now : Timestamp) (fails : Bool)
  | eventRevoke
  /-- The broker serves a `DELETE`. -/
  | serveDelete
  | loseDelete
  | setCurrentIdent (ident : String)
  | beginUpgrade
  | kill
  | pollHandle
  | pollRow
  | upgradeFails
  | register
  /-- The registration fails, with or without effect. -/
  | registerFails (applied : Bool)
  | writeKey
  | persist (nodeId nodeBootId : Option Uuid) (now : Timestamp)
  | linkSpawn
  | linkRefuses
  /-- A devenv starts the shell of a `Spawn` frame and answers. -/
  | hostSpawn
  | spawnOk
  | spawnFails
  | recordIdent
  | lookUpOutput
  | insertHandle
  | abandonRow (now : Timestamp)
  | abandonRevoke
  | beginDelete
  | deleteRow (now : Timestamp)
  | deleteRevoke
  deriving DecidableEq, Repr

/-- One step of `revoke_pty_credential`; `none` in place of the next step when it returns. An
error of the request ends its wait, so the wait may end before the broker has served it. -/
def revokeStep (s : State) : Revoke → State × Option Revoke
  | .deleting => ({ s with deletes := s.deletes + 1 }, some .awaiting)
  | .awaiting => (s, some .unlinking)
  | .unlinking => ({ s with keyFile := none }, none)

/-- The broker's `UPDATE … SET revoked_at = NOW() … AND revoked_at IS NULL`. -/
def revokeCredential (s : State) : Option PtyCredential :=
  s.credential.map fun row => { row with revoked := true }

/-- A new key replaces the credential and clears its revocation. -/
def registerCredential (s : State) : State :=
  { s with credential := some ⟨s.nextKey, false⟩, nextKey := s.nextKey + 1 }

def step (s : State) : Action → Option State
  | .exit key exitCode =>
      if key ∈ s.shells then
        some { s with shells := s.shells.erase key, exitFrames := s.exitFrames ++ [exitCode] }
      else none
  | .exited =>
      match s.exitFrames with
      | exitCode :: rest =>
          some { s with fanOut := false, exitFrames := rest, events := s.events ++ [exitCode] }
      | [] => none
  | .takeEvent =>
      match s.eventTask, s.events with
      | .idle, exitCode :: rest => some { s with events := rest, eventTask := .removing exitCode }
      | _, _ => none
  | .removeHandle =>
      match s.eventTask with
      | .removing exitCode => some { s with handle := none, eventTask := .updating exitCode }
      | _ => none
  | .updateRow now fails =>
      match s.eventTask with
      | .updating exitCode =>
          some { s with
            row := if fails then s.row else s.row.markDead exitCode now,
            eventTask := .revoking .deleting }
      | _ => none
  | .eventRevoke =>
      match s.eventTask with
      | .revoking r =>
          let (s', next) := revokeStep s r
          some { s' with eventTask := next.elim .idle .revoking }
      | _ => none
  | .serveDelete =>
      if 0 < s.deletes then
        some { s with deletes := s.deletes - 1, credential := revokeCredential s }
      else none
  | .loseDelete => if 0 < s.deletes then some { s with deletes := s.deletes - 1 } else none
  | .setCurrentIdent ident => some { s with currentIdent := ident }
  | .beginUpgrade =>
      match s.upgrade, s.handle with
      | .idle, some host =>
          if host = s.currentIdent then none else some { s with upgrade := .killing }
      | _, _ => none
  | .kill =>
      match s.upgrade with
      | .killing => some { s with upgrade := if s.fanOut then .waiting else .idle }
      | _ => none
  | .pollHandle =>
      match s.upgrade with
      | .waiting => some { s with upgrade := .polled s.handle.isNone }
      | _ => none
  | .pollRow =>
      match s.upgrade with
      | .polled handleGone =>
          some { s with
            upgrade := if handleGone ∧ s.row.state ≠ .live then .preparing else .waiting }
      | _ => none
  | .upgradeFails =>
      -- An unreachable devenv, the deadline, a failed read, or a file that cannot be written.
      match s.upgrade with
      | .killing | .waiting | .preparing | .writing _ | .persisting _ =>
          some { s with upgrade := .idle }
      | _ => none
  | .register =>
      match s.upgrade with
      | .preparing =>
          if s.handle = none then
            some { registerCredential s with upgrade := .writing s.nextKey }
          else none
      | _ => none
  | .registerFails applied =>
      match s.upgrade with
      | .preparing => some { (if applied then registerCredential s else s) with upgrade := .idle }
      | _ => none
  | .writeKey =>
      match s.upgrade with
      | .writing key => some { s with keyFile := some key, upgrade := .persisting key }
      | _ => none
  | .persist nodeId nodeBootId now =>
      match s.upgrade with
      | .persisting key =>
          match PtyRow.persistSpawn (some s.row) s.row.id nodeId nodeBootId now with
          | some row => some { s with row := row, upgrade := .linking key }
          | none => some { s with upgrade := .idle }
      | _ => none
  | .linkSpawn =>
      match s.upgrade with
      | .linking key =>
          some { s with
            fanOut := true, spawnFrames := s.spawnFrames ++ [key], spawnResult := none,
            upgrade := .spawning key s.currentIdent }
      | _ => none
  | .linkRefuses =>
      match s.upgrade with
      | .linking _ => some { s with upgrade := .abandoning }
      | _ => none
  | .hostSpawn =>
      match s.spawnFrames with
      | key :: rest =>
          some { s with spawnFrames := rest, shells := s.shells ++ [key], spawnResult := some key }
      | [] => none
  | .spawnOk =>
      match s.upgrade with
      | .spawning key ident =>
          if s.spawnResult = some key then some { s with upgrade := .recording key ident } else none
      | _ => none
  | .spawnFails =>
      match s.upgrade with
      | .spawning _ _ => some { s with fanOut := false, upgrade := .abandoning }
      | _ => none
  | .recordIdent =>
      match s.upgrade with
      | .recording key ident =>
          some { s with
            row := { s.row with devenvIdent := some ident }, upgrade := .looking key ident }
      | _ => none
  | .lookUpOutput =>
      match s.upgrade with
      | .looking key ident =>
          if s.fanOut then some { s with upgrade := .inserting key ident }
          else some { s with upgraded := some key, upgrade := .idle }
      | _ => none
  | .insertHandle =>
      match s.upgrade with
      | .inserting key ident =>
          some { s with handle := some ident, upgraded := some key, upgrade := .idle }
      | _ => none
  | .abandonRow now =>
      match s.upgrade with
      | .abandoning =>
          some { s with
            row := s.row.abandonUnspawned now, upgrade := .abandonRevoking .deleting }
      | _ => none
  | .abandonRevoke =>
      match s.upgrade with
      | .abandonRevoking r =>
          let (s', next) := revokeStep s r
          some { s' with upgrade := next.elim .idle .abandonRevoking }
      | _ => none
  | .beginDelete =>
      match s.delete with
      | .idle => some { s with handle := none, delete := .removed, deleted := true }
      | _ => none
  | .deleteRow now =>
      match s.delete with
      | .removed => some { s with row := s.row.delete now, delete := .recorded }
      | _ => none
  | .deleteRevoke =>
      match s.delete with
      | .recorded => some { s with delete := .revoking .deleting }
      | .revoking r =>
          let (s', next) := revokeStep s r
          some { s' with delete := next.elim .idle .revoking }
      | _ => none

/-! ## The property and its condition -/

/-- Once an upgrade has returned, the credential of the shell it started is registered and not
revoked and its key is in place, for as long as that shell runs and the session is not
deleted. -/
def CredentialKept (s : State) : Prop :=
  ∀ key, s.upgraded = some key → key ∈ s.shells → s.deleted = false →
    s.credential = some ⟨key, false⟩ ∧ s.keyFile = some key

/-- The new credential is registered only when no revocation is under way: `mark_dead` has
returned, and none of its requests is still on its way to the broker. -/
def AfterRevocation (s : State) (a : Action) : Prop :=
  a = .register → (∀ r, s.eventTask ≠ .revoking r) ∧ s.deletes = 0

/-- The event task is inside `revoke_pty_credential`. -/
def EventTask.isRevoking : EventTask → Bool
  | .revoking _ => true
  | _ => false

theorem EventTask.isRevoking_eq_false {t : EventTask} :
    t.isRevoking = false ↔ ∀ r, t ≠ .revoking r := by
  cases t with
  | idle => simp [isRevoking]
  | removing exitCode => simp [isRevoking]
  | updating exitCode => simp [isRevoking]
  | revoking r => simp [isRevoking]

instance : DecidableRel AfterRevocation := fun s a =>
  decidable_of_iff (a = .register → s.eventTask.isRevoking = false ∧ s.deletes = 0) (by
    simp only [AfterRevocation, EventTask.isRevoking_eq_false])

/-! ## The invariant -/

/-- Whether the event task still has an exit to record. -/
def EventTask.pending : EventTask → Nat
  | .removing _ | .updating _ => 1
  | _ => 0

/-- How many shells there are whose exit has not been recorded, started or about to be. -/
def State.load (s : State) : Nat :=
  s.spawnFrames.length + s.shells.length + s.exitFrames.length + s.events.length +
    s.eventTask.pending

/-- The credential of `key` is registered, and no revocation is under way. -/
def Registered (s : State) (key : Key) : Prop :=
  s.credential = some ⟨key, false⟩ ∧ s.deletes = 0 ∧ s.eventTask = .idle

/-- The credential of `key` is registered and its key in place. -/
def Attended (s : State) (key : Key) : Prop := Registered s key ∧ s.keyFile = some key

/-- `key` was generated after the last successful upgrade. -/
def Fresh (s : State) (key : Key) : Prop := key < s.nextKey ∧ s.upgraded ≠ some key

/-- What holds at each place of `upgrade`. -/
def StageInv (s : State) : UpgradeTask → Prop
  | .idle | .killing | .waiting | .polled false => True
  | .polled true => s.handle = none
  | .preparing => s.handle = none ∧ s.row.state ≠ .live
  | .writing key => s.handle = none ∧ s.row.state ≠ .live ∧ Fresh s key ∧ Registered s key
  | .persisting key => s.handle = none ∧ s.row.state ≠ .live ∧ Fresh s key ∧ Attended s key
  | .linking key =>
      s.handle = none ∧ s.load = 0 ∧ s.row.state = .live ∧ Fresh s key ∧ Attended s key
  | .spawning key _ => s.handle = none ∧ Fresh s key ∧ ∀ k ∈ s.spawnFrames ++ s.shells, k = key
  | .recording key _ | .looking key _ | .inserting key _ => key < s.nextKey
  | .abandoning | .abandonRevoking _ => False

/-- The session has at most one shell, and the credential of a running one is kept. -/
structure Tracked (s : State) : Prop where
  load_le : s.load ≤ 1
  recorded : s.row.state ≠ .live → s.load = 0
  attended : ∀ key ∈ s.spawnFrames ++ s.shells, Attended s key
  fresh : ∀ key, s.upgraded = some key → key < s.nextKey
  stage : StageInv s s.upgrade

/-- An upgrade has given the session up: without a handle there will be no other. -/
structure Abandoned (s : State) : Prop where
  handle : s.handle = none
  upgrade : s.upgrade = .idle ∨ s.upgrade = .abandoning ∨ ∃ r, s.upgrade = .abandonRevoking r
  foreign : ∀ key ∈ s.spawnFrames ++ s.shells, s.upgraded ≠ some key

/-- The invariant of the runs that meet the condition. -/
structure Inv (s : State) : Prop where
  delete : s.delete ≠ .idle → s.deleted = true
  kept : s.deleted = true ∨ Abandoned s ∨ Tracked s

theorem Inv.credentialKept {s : State} (h : Inv s) : CredentialKept s := by
  intro key hup hrun hdel
  obtain hd | ha | ht := h.kept
  · rw [hd] at hdel
    cases hdel
  · exact absurd hup (ha.foreign key (List.mem_append_right _ hrun))
  · have hkept := ht.attended key (List.mem_append_right _ hrun)
    exact ⟨hkept.1.1, hkept.2⟩

theorem tracked_established (key : Key) (host current : String) (row : PtyRow) :
    Tracked (established key host current row) where
  load_le := by simp [established, State.load, EventTask.pending]
  recorded := by simp [established]
  attended := by
    intro k hk
    obtain rfl : k = key := by simpa [established] using hk
    exact ⟨⟨rfl, rfl, rfl⟩, rfl⟩
  fresh := by simp [established]
  stage := trivial

/-! ## Steps of the event task, the link, the devenvs and the broker -/

/-- The actions of a call of `upgrade`. -/
def Action.ofUpgrade : Action → Bool
  | .beginUpgrade | .kill | .pollHandle | .pollRow | .upgradeFails | .register | .registerFails _
  | .writeKey | .persist _ _ _ | .linkSpawn | .linkRefuses | .spawnOk | .spawnFails
  | .recordIdent | .lookUpOutput | .insertHandle | .abandonRow _ | .abandonRevoke => true
  | _ => false

/-- The actions of a call of `delete`. -/
def Action.ofDelete : Action → Bool
  | .beginDelete | .deleteRow _ | .deleteRevoke => true
  | _ => false

/-- What the others may do to a session: they start no shell and make no row live, and they
leave the credential alone while no exit is pending. -/
structure Outside (s s' : State) : Prop where
  upgrade : s'.upgrade = s.upgrade
  upgraded : s'.upgraded = s.upgraded
  nextKey : s'.nextKey = s.nextKey
  handle : s.handle = none → s'.handle = none
  row : s.load = 0 → s'.row.state = s.row.state
  load : s'.load ≤ s.load
  recorded : s'.row.state ≠ .live → s.row.state ≠ .live ∨ s'.load = 0
  shells : ∀ key ∈ s'.spawnFrames ++ s'.shells, key ∈ s.spawnFrames ++ s.shells
  registered : ∀ key, Registered s key → s.load = 0 ∨ key ∈ s.spawnFrames ++ s.shells →
    Registered s' key ∧ s'.keyFile = s.keyFile

theorem outside_step {s s' : State} {a : Action} (h : step s a = some s') (hload : s.load ≤ 1)
    (hup : a.ofUpgrade = false) (hdel : a.ofDelete = false) : Outside s s' := by
  cases a with
  | exit key exitCode =>
      simp only [step] at h
      split at h
      · rename_i hkey
        cases h
        have hlen : (s.shells.erase key).length + 1 = s.shells.length := by
          rw [List.length_erase_of_mem hkey]
          have := List.length_pos_of_mem hkey
          omega
        have hmem : ∀ k ∈ s.shells.erase key, k ∈ s.shells := fun k => List.mem_of_mem_erase
        constructor <;> grind [State.load, Registered]
      · cases h
  | exited | serveDelete | loseDelete | hostSpawn =>
      simp only [step] at h
      split at h <;> cases h
      constructor <;> grind [State.load, Registered]
  | takeEvent | removeHandle =>
      -- A pending exit and a shell that is tracked would be two.
      simp only [step] at h
      split at h <;> cases h
      constructor <;> grind [State.load, EventTask.pending, Registered]
  | updateRow now fails =>
      simp only [step] at h
      split at h <;> cases h
      constructor <;> grind [State.load, EventTask.pending, Registered, PtyRow.markDead]
  | eventRevoke =>
      simp only [step] at h
      split at h
      · rename_i r hr
        cases r with
        | deleting | awaiting | unlinking =>
            simp only [revokeStep] at h
            cases h
            constructor <;> grind [State.load, EventTask.pending, Registered]
      · cases h
  | setCurrentIdent ident =>
      cases h
      constructor <;> grind [State.load, Registered]
  | beginDelete | deleteRow now | deleteRevoke => cases hdel
  | _ => cases hup

theorem Tracked.outside {s s' : State} (ht : Tracked s) (ho : Outside s s') : Tracked s' := by
  have hatt : ∀ key, Attended s key → s.load = 0 ∨ key ∈ s.spawnFrames ++ s.shells →
      Attended s' key := by
    intro key hkey hwhen
    obtain ⟨hreg, hfile⟩ := ho.registered key hkey.1 hwhen
    exact ⟨hreg, hfile.trans hkey.2⟩
  have hfresh : ∀ key, Fresh s key → Fresh s' key := by
    intro key hkey
    rw [Fresh, ho.nextKey, ho.upgraded]
    exact hkey
  have hdead : s.row.state ≠ .live → s'.row.state ≠ .live := by
    intro hrow
    rw [ho.row (ht.recorded hrow)]
    exact hrow
  refine ⟨ho.load.trans ht.load_le, ?_, ?_, ?_, ?_⟩
  · intro hrow
    obtain hlive | hzero := ho.recorded hrow
    · have := ht.recorded hlive
      have := ho.load
      omega
    · exact hzero
  · intro key hkey
    have hmem := ho.shells key hkey
    exact hatt key (ht.attended key hmem) (Or.inr hmem)
  · rw [ho.upgraded, ho.nextKey]
    exact ht.fresh
  · have hstage := ht.stage
    rw [ho.upgrade]
    cases hu : s.upgrade with
    | idle | killing | waiting => trivial
    | polled handleGone =>
        rw [hu] at hstage
        cases handleGone with
        | false => trivial
        | true => exact ho.handle hstage
    | preparing =>
        rw [hu] at hstage
        exact ⟨ho.handle hstage.1, hdead hstage.2⟩
    | writing key =>
        rw [hu] at hstage
        obtain ⟨hh, hrow, hf, hreg⟩ := hstage
        exact ⟨ho.handle hh, hdead hrow, hfresh key hf,
          (ho.registered key hreg (Or.inl (ht.recorded hrow))).1⟩
    | persisting key =>
        rw [hu] at hstage
        obtain ⟨hh, hrow, hf, hkey⟩ := hstage
        exact ⟨ho.handle hh, hdead hrow, hfresh key hf, hatt key hkey (Or.inl (ht.recorded hrow))⟩
    | linking key =>
        rw [hu] at hstage
        obtain ⟨hh, hzero, hlive, hf, hkey⟩ := hstage
        have hload := ho.load
        exact ⟨ho.handle hh, by omega, (ho.row hzero).trans hlive, hfresh key hf,
          hatt key hkey (Or.inl hzero)⟩
    | spawning key ident =>
        rw [hu] at hstage
        obtain ⟨hh, hf, hall⟩ := hstage
        exact ⟨ho.handle hh, hfresh key hf, fun k hk => hall k (ho.shells k hk)⟩
    | recording key ident | looking key ident | inserting key ident =>
        rw [hu] at hstage
        show key < s'.nextKey
        rw [ho.nextKey]
        exact hstage
    | abandoning | abandonRevoking r =>
        rw [hu] at hstage
        exact hstage

/-! ## Steps of `upgrade` -/

theorem stageInv_upgrade (s : State) (u v : UpgradeTask) :
    StageInv { s with upgrade := u } v ↔ StageInv s v := by
  cases v with
  | polled handleGone =>
      cases handleGone with
      | false | true => exact Iff.rfl
  | _ => exact Iff.rfl

/-- `upgrade` goes on to `u`. -/
theorem Tracked.goOn {s : State} (ht : Tracked s) {u : UpgradeTask} (hu : StageInv s u) :
    Tracked { s with upgrade := u } :=
  ⟨ht.load_le, ht.recorded, ht.attended, ht.fresh, (stageInv_upgrade s u u).mpr hu⟩

/-- `upgrade` gives the session up. -/
theorem abandoned_giveUp {s : State} {key : Key} (hhandle : s.handle = none)
    (hfresh : s.upgraded ≠ some key) (hall : ∀ k ∈ s.spawnFrames ++ s.shells, k = key) :
    Abandoned { s with upgrade := .abandoning } where
  handle := hhandle
  upgrade := Or.inr (Or.inl rfl)
  foreign := by
    intro k hk
    rw [hall k hk]
    exact hfresh

theorem no_shells {s : State} (h : s.load = 0) : s.spawnFrames ++ s.shells = [] := by
  simp only [State.load] at h
  rw [List.append_eq_nil_iff, ← List.length_eq_zero_iff, ← List.length_eq_zero_iff]
  omega

theorem tracked_register {s : State} (ht : Tracked s) (hu : s.upgrade = .preparing)
    (htask : ∀ r, s.eventTask ≠ .revoking r) (hdel : s.deletes = 0) :
    Tracked { registerCredential s with upgrade := .writing s.nextKey } := by
  have hstage := ht.stage
  rw [hu] at hstage
  obtain ⟨hhandle, hrow⟩ := hstage
  have hzero := ht.recorded hrow
  have hidle : s.eventTask = .idle := by
    cases he : s.eventTask with
    | idle => rfl
    | removing exitCode | updating exitCode =>
        simp [State.load, he, EventTask.pending] at hzero
    | revoking r => exact absurd he (htask r)
  have hempty := no_shells hzero
  refine ⟨ht.load_le, ht.recorded, ?_, ?_, hhandle, hrow, ?_, rfl, hdel, hidle⟩
  · intro key hkey
    change key ∈ s.spawnFrames ++ s.shells at hkey
    rw [hempty] at hkey
    cases hkey
  · intro key hkey
    exact (ht.fresh key hkey).trans (Nat.lt_succ_self _)
  · refine ⟨Nat.lt_succ_self _, ?_⟩
    intro hup
    exact absurd (ht.fresh _ hup) (Nat.lt_irrefl _)

theorem tracked_upgrade_step {s s' : State} {a : Action} (h : step s a = some s')
    (hok : AfterRevocation s a) (hup : a.ofUpgrade = true) (ht : Tracked s) :
    Abandoned s' ∨ Tracked s' := by
  have hstage := ht.stage
  cases a with
  | beginUpgrade =>
      simp only [step] at h
      split at h
      · split at h <;> cases h
        exact Or.inr (ht.goOn trivial)
      · cases h
  | kill =>
      simp only [step] at h
      split at h <;> cases h
      refine Or.inr (ht.goOn ?_)
      split <;> trivial
  | pollHandle =>
      simp only [step] at h
      split at h <;> cases h
      refine Or.inr (ht.goOn ?_)
      cases hh : s.handle with
      | none => exact hh
      | some host => trivial
  | pollRow =>
      simp only [step] at h
      split at h <;> cases h
      rename_i handleGone hu
      refine Or.inr (ht.goOn ?_)
      split
      · rename_i hdone
        obtain ⟨hgone, hrow⟩ := hdone
        subst hgone
        rw [hu] at hstage
        exact ⟨hstage, hrow⟩
      · trivial
  | upgradeFails =>
      simp only [step] at h
      split at h <;> cases h <;> exact Or.inr (ht.goOn trivial)
  | register =>
      simp only [step] at h
      split at h
      · rename_i hu
        split at h <;> cases h
        obtain ⟨htask, hdel⟩ := hok rfl
        exact Or.inr (tracked_register ht hu htask hdel)
      · cases h
  | registerFails applied =>
      simp only [step] at h
      split at h
      · rename_i hu
        cases h
        rw [hu] at hstage
        right
        cases applied with
        | false => exact ht.goOn trivial
        | true =>
            have hempty := no_shells (ht.recorded hstage.2)
            refine ⟨ht.load_le, ht.recorded, ?_, ?_, trivial⟩
            · intro key hkey
              change key ∈ s.spawnFrames ++ s.shells at hkey
              rw [hempty] at hkey
              cases hkey
            · intro key hkey
              exact (ht.fresh key hkey).trans (Nat.lt_succ_self _)
      · cases h
  | writeKey =>
      simp only [step] at h
      split at h
      · rename_i key hu
        cases h
        rw [hu] at hstage
        obtain ⟨hhandle, hrow, hfresh, hreg⟩ := hstage
        have hempty := no_shells (ht.recorded hrow)
        right
        refine ⟨ht.load_le, ht.recorded, ?_, ht.fresh, hhandle, hrow, hfresh, hreg, rfl⟩
        intro k hk
        change k ∈ s.spawnFrames ++ s.shells at hk
        rw [hempty] at hk
        cases hk
      · cases h
  | persist nodeId nodeBootId now =>
      simp only [step] at h
      split at h
      · rename_i key hu
        rw [hu] at hstage
        obtain ⟨hhandle, hrow, hfresh, hkey⟩ := hstage
        have hzero := ht.recorded hrow
        split at h
        · rename_i row hpersist
          cases h
          have hlive := PtyRow.persistSpawn_live now hpersist
          right
          exact ⟨ht.load_le, fun _ => hzero, ht.attended, ht.fresh, hhandle, hzero, hlive,
            hfresh, hkey⟩
        · cases h
          exact Or.inr (ht.goOn trivial)
      · cases h
  | linkSpawn =>
      simp only [step] at h
      split at h
      · rename_i key hu
        cases h
        rw [hu] at hstage
        obtain ⟨hhandle, hzero, hlive, hfresh, hkey⟩ := hstage
        have hempty := no_shells hzero
        have hnone : s.spawnFrames = [] ∧ s.shells = [] := List.append_eq_nil_iff.mp hempty
        have hone : ∀ k ∈ (s.spawnFrames ++ [key]) ++ s.shells, k = key := by
          rw [hnone.1, hnone.2]
          simp
        right
        refine ⟨?_, fun hrow => absurd hlive hrow, ?_, ht.fresh, hhandle, hfresh, hone⟩
        · simp only [State.load, List.length_append, List.length_singleton] at hzero ⊢
          omega
        · intro k hk
          rw [hone k hk]
          exact hkey
      · cases h
  | linkRefuses =>
      simp only [step] at h
      split at h
      · rename_i key hu
        cases h
        rw [hu] at hstage
        obtain ⟨hhandle, hzero, _, hfresh, _⟩ := hstage
        left
        refine abandoned_giveUp hhandle hfresh.2 ?_
        rw [no_shells hzero]
        intro k hk
        cases hk
      · cases h
  | spawnOk =>
      simp only [step] at h
      split at h
      · rename_i key ident hu
        split at h <;> cases h
        rw [hu] at hstage
        exact Or.inr (ht.goOn hstage.2.1.1)
      · cases h
  | spawnFails =>
      simp only [step] at h
      split at h
      · rename_i key ident hu
        cases h
        rw [hu] at hstage
        obtain ⟨hhandle, hfresh, hall⟩ := hstage
        left
        exact ⟨hhandle, Or.inr (Or.inl rfl), (abandoned_giveUp hhandle hfresh.2 hall).foreign⟩
      · cases h
  | recordIdent =>
      simp only [step] at h
      split at h
      · rename_i key ident hu
        cases h
        rw [hu] at hstage
        right
        exact ⟨ht.load_le, ht.recorded, ht.attended, ht.fresh, hstage⟩
      · cases h
  | lookUpOutput =>
      simp only [step] at h
      split at h
      · rename_i key ident hu
        rw [hu] at hstage
        split at h
        · cases h
          exact Or.inr (ht.goOn hstage)
        · cases h
          right
          refine ⟨ht.load_le, ht.recorded, ht.attended, ?_, trivial⟩
          intro k hk
          cases hk
          exact hstage
      · cases h
  | insertHandle =>
      simp only [step] at h
      split at h
      · rename_i key ident hu
        cases h
        rw [hu] at hstage
        right
        refine ⟨ht.load_le, ht.recorded, ht.attended, ?_, trivial⟩
        intro k hk
        cases hk
        exact hstage
      · cases h
  | abandonRow now =>
      simp only [step] at h
      split at h
      · rename_i hu
        rw [hu] at hstage
        exact hstage.elim
      · cases h
  | abandonRevoke =>
      simp only [step] at h
      split at h
      · rename_i r hu
        rw [hu] at hstage
        exact hstage.elim
      · cases h
  | _ => cases hup

/-! ## Runs -/

theorem abandoned_step {s s' : State} {a : Action} (h : step s a = some s')
    (hdel : a.ofDelete = false) (ha : Abandoned s) : Abandoned s' := by
  obtain ⟨hhandle, hup, hforeign⟩ := ha
  cases a with
  | beginDelete | deleteRow now | deleteRevoke => cases hdel
  | _ =>
      simp only [step, revokeStep, registerCredential] at h
      constructor <;> grind

theorem delete_step {s s' : State} {a : Action} (h : step s a = some s')
    (hdel : a.ofDelete = true) (hbegun : s.delete ≠ .idle → s.deleted = true) :
    s'.deleted = true := by
  cases a with
  | beginDelete | deleteRow now | deleteRevoke =>
      simp only [step, revokeStep] at h
      grind
  | _ => cases hdel

theorem other_step_delete {s s' : State} {a : Action} (h : step s a = some s')
    (hdel : a.ofDelete = false) : s'.delete = s.delete ∧ s'.deleted = s.deleted := by
  cases a with
  | beginDelete | deleteRow now | deleteRevoke => cases hdel
  | _ =>
      simp only [step, revokeStep, registerCredential] at h
      grind

theorem inv_step : Preserved step AfterRevocation Inv := by
  intro s a s' hinv hok h
  cases hdel : a.ofDelete with
  | true =>
      have hdeleted := delete_step h hdel hinv.delete
      exact ⟨fun _ => hdeleted, Or.inl hdeleted⟩
  | false =>
      obtain ⟨hsame, hflag⟩ := other_step_delete h hdel
      refine ⟨by rw [hsame, hflag]; exact hinv.delete, ?_⟩
      obtain hd | ha | ht := hinv.kept
      · exact Or.inl (hflag.trans hd)
      · exact Or.inr (Or.inl (abandoned_step h hdel ha))
      · right
        cases hup : a.ofUpgrade with
        | true => exact tracked_upgrade_step h hok hup ht
        | false => exact Or.inr (ht.outside (outside_step h ht.load_le hup hdel))

/-- **An upgraded session keeps its credential**, in every run in which `upgrade` registers the
new credential only after `mark_dead` has revoked the old one. -/
theorem upgrade_keeps_credential {key : Key} {host current : String} {row : PtyRow} {s : State}
    (hrun : Run step AfterRevocation (established key host current row) s) : CredentialKept s := by
  have h0 : Inv (established key host current row) :=
    ⟨fun h => absurd rfl h, Or.inr (Or.inr (tracked_established key host current row))⟩
  exact (hrun.invariant inv_step h0).credentialKept

/-- A row as `persist_spawn` inserts it. -/
def newRow : PtyRow where
  id := 1
  nodeId := none
  nodeBootId := none
  state := .live
  createdAt := 0
  endedAt := none
  exitCode := none
  runtimeEndReason := none
  nodeDisconnectedAt := none
  devenvIdent := none

/-- The steps from `kill` until `upgrade` has found the old shell recorded as dead. -/
def killed : List Action :=
  [.beginUpgrade, .kill, .exit 0 (some 143), .exited, .takeEvent, .removeHandle,
    .updateRow 1 false, .pollHandle, .pollRow]

/-- The steps from the registration of the new credential until `upgrade` returns. -/
def respawned : List Action :=
  [.register, .writeKey, .persist none none 2, .linkSpawn, .hostSpawn, .spawnOk, .recordIdent,
    .lookUpOutput, .insertHandle]

theorem upgrade_keeps_credential_after_revocation :
    ∃ s, Run step AfterRevocation (established 0 "old" "new" newRow) s ∧ s.upgraded = some 1 ∧
      1 ∈ s.shells ∧ s.deleted = false ∧ CredentialKept s := by
  have hrun : (runList (restrict step AfterRevocation) (established 0 "old" "new" newRow)
      (killed ++ [.eventRevoke, .serveDelete, .eventRevoke,
        .eventRevoke] ++ respawned)).isSome := by
    decide +kernel
  obtain ⟨s, hs⟩ := Option.isSome_iff_exists.mp hrun
  have h := Run.of_restrict _ hs
  have hfinal : (runList (restrict step AfterRevocation) (established 0 "old" "new" newRow)
      (killed ++ [.eventRevoke, .serveDelete, .eventRevoke, .eventRevoke] ++ respawned)).map
        (fun s => (s.upgraded, s.shells, s.deleted)) = some (some 1, [1], false) := by
    decide +kernel
  rw [hs, Option.map_some, Option.some.injEq, Prod.mk.injEq, Prod.mk.injEq] at hfinal
  obtain ⟨hup, hshells, hdel⟩ := hfinal
  exact ⟨s, h, hup, by rw [hshells]; exact List.mem_singleton_self 1, hdel,
    upgrade_keeps_credential h⟩

/-- The revocation of the old credential may reach the broker after the registration of the new
one, and then the running shell has none. -/
theorem upgrade_revokes_new_credential :
    ∃ s, Run step anyStep (established 0 "old" "new" newRow) s ∧ ¬ CredentialKept s := by
  have hfinal : (runList step (established 0 "old" "new" newRow)
      (killed ++ respawned ++ [.eventRevoke, .serveDelete, .eventRevoke, .eventRevoke])).map
        (fun s => (s.upgraded, s.shells, s.deleted, s.credential, s.keyFile)) =
      some (some 1, [1], false, some ⟨1, true⟩, none) := by
    decide +kernel
  obtain ⟨s, hs, hfields⟩ := Option.map_eq_some_iff.mp hfinal
  simp only [Prod.mk.injEq] at hfields
  obtain ⟨hup, hshells, hdel, hcred, _⟩ := hfields
  refine ⟨s, Run.of_runList _ hs, fun hkept => ?_⟩
  have hlost := (hkept 1 hup (by rw [hshells]; exact List.mem_singleton_self 1) hdel).1
  rw [hcred] at hlost
  exact absurd hlost (by decide)

end Sulion.Pty.Upgrade
