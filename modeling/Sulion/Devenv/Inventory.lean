import Sulion.Lib.Transition
import Sulion.Node.Store

set_option autoImplicit false

/-! # Inventories and the shells they miss

Two inventories decide which sessions have lost their shell. A heartbeat carries the ids that
`PtyManager` has handles for, and `reconcile_missing_sessions` orphans the live rows of the node
that are not among them. The hello of a devenv carries the sessions that it hosts, and
`sync_with_inventory` orphans the handles on it that are not among these. Each is taken at one
moment and acted on at another, while spawns, adoptions, exits and restarts of the node go on.

`running_not_orphaned` says when neither orphans a row whose shell runs. Frames to the link may
overtake each other here, those of a connection that breaks are lost.
-/

namespace Sulion.Devenv.Inventory

open Pty Node Transition

/-- What a devenv hosts. -/
structure Session where
  id : Uuid
  ident : String
  running : Bool
  deriving DecidableEq

inductive LinkEvent
  | connected (ident : String) (sessions : List Uuid)
  | exited (id : Uuid) (exitCode : Option Int)
  deriving DecidableEq

/-- Where a call of `spawn` is. -/
inductive Stage
  | begun
  | persisted
  | sent (ident : String)
  | answered (ident : String)
  | gone
  deriving DecidableEq

structure Spawn where
  id : Uuid
  stage : Stage
  deriving DecidableEq

/-- The frame of a spawn, with the call that waits for its answer. -/
structure SpawnFrame where
  call : Nat
  id : Uuid
  ident : String
  deriving DecidableEq

structure Heartbeat where
  bootId : Uuid
  connection : Node.ConnectionId
  liveSessionIds : List Uuid
  deriving DecidableEq

structure State where
  nodeId : Uuid
  /-- Control's record of the node. -/
  node : DevNode
  rows : List PtyRow
  sessions : List Session
  bootId : Uuid
  connection : Option Node.ConnectionId := none
  /-- `PtyManager::sessions`, with the devenv of each. -/
  handles : List (Uuid × String) := []
  spawns : List Spawn := []
  frames : List SpawnFrame := []
  /-- Frames on their way to the link. -/
  wire : List LinkEvent := []
  /-- Events that `run_events` has not taken yet. -/
  events : List LinkEvent := []
  /-- What `sync_with_inventory` is still to orphan, and then to adopt. -/
  orphans : List Uuid := []
  adoptions : List (Uuid × String) := []
  heartbeats : List Heartbeat := []

inductive Action
  | connect (connection : Node.ConnectionId) (now : Timestamp)
  | disconnect
  | beat
  | apply (j : Nat) (now : Timestamp)
  | dropBeat (j : Nat)
  | spawn (id : Uuid)
  | persist (k : Nat) (now : Timestamp)
  | send (k : Nat) (ident : String)
  | start (j : Nat)
  | dropSpawn (j : Nat)
  | giveUp (k : Nat) (now : Timestamp)
  | register (k : Nat) (tracked : Bool)
  | restart (bootId : Uuid)
  | dial (ident : String)
  | exit (id : Uuid) (ident : String) (exitCode : Option Int)
  | remove (id : Uuid) (ident : String)
  /-- A container is lost with its shells. -/
  | lose (ident : String)
  | handle (j : Nat)
  | dropFrame (j : Nat)
  | event (now : Timestamp)
  | orphan (now : Timestamp)
  | adopt (accepted : Bool)
  | delete (id : Uuid)
  | deleteRow (id : Uuid) (now : Timestamp)

/-- `UPDATE pty_sessions … WHERE id = $1`. -/
def updateRow (id : Uuid) (f : PtyRow → PtyRow) (rows : List PtyRow) : List PtyRow :=
  rows.map fun row => if row.id = id then f row else row

/-- The insert of `persist_spawn`. -/
def putRow (row : PtyRow) (rows : List PtyRow) : List PtyRow :=
  if rows.any (·.id = row.id) then updateRow row.id (fun _ => row) rows else rows ++ [row]

namespace State

variable (s : State)

def eraseHandle (id : Uuid) : State := { s with handles := s.handles.filter (·.1 ≠ id) }

def putHandle (id : Uuid) (ident : String) : State :=
  { s with handles := (id, ident) :: s.handles.filter (·.1 ≠ id) }

def setStage (k : Nat) (id : Uuid) (stage : Stage) : State :=
  { s with spawns := s.spawns.set k ⟨id, stage⟩ }

/-- The keys of the sessions of a devenv. -/
def hostedOn (ident : String) : List Uuid := (s.sessions.filter (·.ident = ident)).map (·.id)

/-- `handle_spawn`; a session that is hosted already is an error. -/
def handleSpawn (frame : SpawnFrame) : State :=
  if s.sessions.any fun session => session.id = frame.id ∧ session.ident = frame.ident then s
  else
    let started := { s with sessions := s.sessions ++ [⟨frame.id, frame.ident, true⟩] }
    if s.spawns[frame.call]? = some ⟨frame.id, .sent frame.ident⟩ then
      started.setStage frame.call frame.id (.answered frame.ident)
    else started

/-- `run_events`: an exit is recorded, a connection is compared with the handles. -/
def handleEvent (now : Timestamp) : LinkEvent → State
  | .exited id exitCode =>
      { s.eraseHandle id with rows := updateRow id (fun row => row.markDead exitCode now) s.rows }
  | .connected ident ids =>
      { s with
        orphans := (s.handles.filter fun handle => handle.2 = ident ∧ handle.1 ∉ ids).map (·.1)
        adoptions := (ids.filter fun id => id ∉ s.handles.map (·.1)).map fun id => (id, ident) }

end State

def step (s : State) : Action → Option State
  | .connect connection now =>
      some { s with
        connection := some connection
        node := s.node.recordConnection 1 s.bootId connection now }
  | .disconnect => some { s with connection := none }
  | .beat =>
      s.connection.map fun connection =>
        { s with heartbeats := s.heartbeats ++ [⟨s.bootId, connection, s.handles.map (·.1)⟩] }
  | .apply j now =>
      s.heartbeats[j]?.map fun beat =>
        let s := { s with heartbeats := s.heartbeats.eraseIdx j }
        match s.node.heartbeat beat.bootId beat.connection now with
        | none => s
        | some node =>
            { s with
              node := node
              rows := heartbeatSessions s.nodeId beat.bootId beat.liveSessionIds true now s.rows }
  | .dropBeat j => some { s with heartbeats := s.heartbeats.eraseIdx j }
  | .spawn id =>
      if s.handles.any (·.1 = id) then none
      else some { s with spawns := s.spawns ++ [⟨id, .begun⟩] }
  | .persist k now =>
      match s.spawns[k]? with
      | some ⟨id, .begun⟩ =>
          match PtyRow.persistSpawn (s.rows.find? (·.id = id)) id (some s.nodeId) (some s.bootId)
              now with
          | none => some (s.setStage k id .gone)
          | some row => some { s.setStage k id .persisted with rows := putRow row s.rows }
      | _ => none
  | .send k ident =>
      match s.spawns[k]? with
      | some ⟨id, .persisted⟩ =>
          some { s.setStage k id (.sent ident) with frames := s.frames ++ [⟨k, id, ident⟩] }
      | _ => none
  | .start j =>
      s.frames[j]?.map fun frame => { s with frames := s.frames.eraseIdx j }.handleSpawn frame
  | .dropSpawn j => some { s with frames := s.frames.eraseIdx j }
  | .giveUp k now =>
      match s.spawns[k]? with
      | some ⟨id, .persisted⟩ | some ⟨id, .sent _⟩ | some ⟨id, .answered _⟩ =>
          some { s.setStage k id .gone with
            rows := updateRow id (fun row => row.abandonUnspawned now) s.rows }
      | _ => none
  | .register k tracked =>
      match s.spawns[k]? with
      | some ⟨id, .answered ident⟩ =>
          let s := s.setStage k id .gone
          -- a session that has exited already has no output channel
          some (if tracked then s.putHandle id ident else s)
      | _ => none
  | .restart bootId =>
      some { s with
        bootId := bootId, connection := none, handles := [], wire := [], events := []
        orphans := [], adoptions := []
        spawns := s.spawns.map fun spawn => { spawn with stage := .gone } }
  | .dial ident => some { s with wire := s.wire ++ [.connected ident (s.hostedOn ident)] }
  | .exit id ident exitCode =>
      if ⟨id, ident, true⟩ ∈ s.sessions then
        some { s with
          sessions := s.sessions.map fun session =>
            if session = ⟨id, ident, true⟩ then ⟨id, ident, false⟩ else session
          wire := s.wire ++ [.exited id exitCode] }
      else none
  | .remove id ident => some { s with sessions := s.sessions.filter (· ≠ ⟨id, ident, false⟩) }
  | .lose ident => some { s with sessions := s.sessions.filter (·.ident ≠ ident) }
  | .handle j =>
      s.wire[j]?.map fun event =>
        { s with wire := s.wire.eraseIdx j, events := s.events ++ [event] }
  | .dropFrame j => some { s with wire := s.wire.eraseIdx j }
  | .event now =>
      match s.orphans, s.adoptions, s.events with
      | [], [], event :: rest => some ({ s with events := rest }.handleEvent now event)
      | _, _, _ => none
  | .orphan now =>
      match s.orphans with
      | id :: rest =>
          some { s.eraseHandle id with
            orphans := rest
            rows := updateRow id (fun row => row.markOrphaned now) s.rows }
      | [] => none
  | .adopt accepted =>
      match s.orphans, s.adoptions with
      | [], (id, ident) :: rest =>
          let s := { s with adoptions := rest }
          -- without a row or an output channel it is left alone
          some (if accepted then s.putHandle id ident else s)
      | _, _ => none
  | .delete id => some (s.eraseHandle id)
  | .deleteRow id now => some { s with rows := updateRow id (fun row => row.delete now) s.rows }

/-! ## The condition -/

/-- An inventory of the devenv has the session. -/
def LinkEvent.Lists (id : Uuid) (ident : String) : LinkEvent → Prop
  | .connected host ids => host = ident → id ∈ ids
  | .exited _ _ => True

namespace State

variable (s : State)

/-- A shell of the session runs in some devenv. -/
def Running (id : Uuid) : Prop := ∃ session ∈ s.sessions, session.id = id ∧ session.running = true

/-- Every inventory of the devenv that is still to be compared has the session. -/
def Listed (id : Uuid) (ident : String) : Prop :=
  ∀ event ∈ s.wire ++ s.events, event.Lists id ident

/-- A shell of the session runs on no other devenv. -/
def OnlyOn (id : Uuid) (ident : String) : Prop :=
  ∀ session ∈ s.sessions, session.id = id → session.running = true → session.ident = ident

/-- A handle may be put there. -/
def MayTrack (id : Uuid) (ident : String) : Prop :=
  s.Running id → s.Listed id ident ∧ s.OnlyOn id ident

def MayRegister (spawn : Spawn) : Prop :=
  match spawn.stage with
  | .answered ident => s.MayTrack spawn.id ident
  | _ => True

end State

/-- A heartbeat is built when every running shell of a live row has its handle; no shell starts
while a heartbeat is on its way, or while its session has a handle or is about to be orphaned; no
row becomes live again while its shell runs and a heartbeat is on its way; and a handle is put on
the devenv that runs the shell, when no inventory without it is left. -/
def Timely (s : State) : Action → Prop
  | .beat => ∀ row ∈ s.rows, row.state = .live → s.Running row.id → row.id ∈ s.handles.map (·.1)
  | .start j => ∀ frame ∈ s.frames[j]?, s.heartbeats = [] ∧ frame.id ∉ s.orphans ∧
      frame.id ∉ s.handles.map (·.1)
  | .persist k _ => ∀ spawn ∈ s.spawns[k]?, s.Running spawn.id → s.heartbeats = []
  | .register k _ => ∀ spawn ∈ s.spawns[k]?, s.MayRegister spawn
  | .adopt _ => ∀ adoption ∈ s.adoptions.head?, s.MayTrack adoption.1 adoption.2
  | _ => True

instance (id : Uuid) (ident : String) (event : LinkEvent) : Decidable (event.Lists id ident) :=
  match event with
  | .connected host ids => inferInstanceAs (Decidable (host = ident → id ∈ ids))
  | .exited _ _ => .isTrue trivial

instance (s : State) (id : Uuid) : Decidable (s.Running id) :=
  inferInstanceAs (Decidable (∃ session ∈ s.sessions, session.id = id ∧ session.running = true))

instance (s : State) (id : Uuid) (ident : String) : Decidable (s.Listed id ident) :=
  inferInstanceAs (Decidable (∀ event ∈ s.wire ++ s.events, event.Lists id ident))

instance (s : State) (id : Uuid) (ident : String) : Decidable (s.OnlyOn id ident) :=
  inferInstanceAs (Decidable (∀ session ∈ s.sessions, session.id = id → session.running = true →
    session.ident = ident))

instance (s : State) (id : Uuid) (ident : String) : Decidable (s.MayTrack id ident) :=
  inferInstanceAs (Decidable (s.Running id → s.Listed id ident ∧ s.OnlyOn id ident))

instance (s : State) (spawn : Spawn) : Decidable (s.MayRegister spawn) :=
  match spawn with
  | ⟨id, .answered ident⟩ => inferInstanceAs (Decidable (s.MayTrack id ident))
  | ⟨_, .begun⟩ | ⟨_, .persisted⟩ | ⟨_, .sent _⟩ | ⟨_, .gone⟩ => .isTrue trivial

instance (s : State) (a : Action) : Decidable (Timely s a) :=
  match a with
  | .beat => inferInstanceAs (Decidable (∀ row ∈ s.rows, row.state = .live → s.Running row.id →
      row.id ∈ s.handles.map (·.1)))
  | .start j => inferInstanceAs (Decidable (∀ frame ∈ s.frames[j]?, s.heartbeats = [] ∧
      frame.id ∉ s.orphans ∧ frame.id ∉ s.handles.map (·.1)))
  | .persist k _ => inferInstanceAs (Decidable (∀ spawn ∈ s.spawns[k]?, s.Running spawn.id →
      s.heartbeats = []))
  | .register k _ => inferInstanceAs (Decidable (∀ spawn ∈ s.spawns[k]?, s.MayRegister spawn))
  | .adopt _ => inferInstanceAs (Decidable (∀ adoption ∈ s.adoptions.head?,
      s.MayTrack adoption.1 adoption.2))
  | .connect _ _ | .disconnect | .apply _ _ | .dropBeat _ | .spawn _ | .send _ _ | .dropSpawn _
  | .giveUp _ _ | .restart _ | .dial _ | .exit _ _ _ | .remove _ _ | .lose _ | .handle _
  | .dropFrame _ | .event _ | .orphan _ | .delete _ | .deleteRow _ _ => .isTrue trivial

structure Inv (s : State) : Prop where
  ids : (s.rows.map (·.id)).Nodup
  placed : ∀ handle ∈ s.handles, s.OnlyOn handle.1 handle.2
  listed : ∀ handle ∈ s.handles, s.Running handle.1 → s.Listed handle.1 handle.2
  orphans : ∀ id ∈ s.orphans, ¬ s.Running id
  beats : ∀ beat ∈ s.heartbeats, ∀ row ∈ s.rows, row.state = .live → s.Running row.id →
    row.id ∈ beat.liveSessionIds

/-- A live row does not become orphaned. -/
def Spares (s s' : State) : Prop :=
  ∀ row ∈ s.rows, row.state = .live → s.Running row.id →
    ∀ row' ∈ s'.rows, row'.id = row.id → row'.state ≠ .orphaned

/-- The node process has just started; shells of earlier ones may run. -/
structure Fresh (s : State) : Prop where
  ids : (s.rows.map (·.id)).Nodup
  handles : s.handles = []
  orphans : s.orphans = []
  heartbeats : s.heartbeats = []

section Proofs

variable {s s' : State} {rows rows' : List PtyRow} {f : PtyRow → PtyRow} {id : Uuid}

/-! ## Rows -/

/-- No row becomes live. -/
structure RowsFade (rows rows' : List PtyRow) : Prop where
  ids : rows'.map (·.id) = rows.map (·.id)
  live : ∀ row' ∈ rows', row'.state = .live → ∃ row ∈ rows, row.id = row'.id ∧ row.state = .live

theorem RowsFade.refl (rows : List PtyRow) : RowsFade rows rows :=
  ⟨rfl, fun row hrow hlive => ⟨row, hrow, rfl, hlive⟩⟩

theorem RowsFade.map (hid : ∀ row, (f row).id = row.id)
    (hlive : ∀ row, (f row).state = .live → row.state = .live) : RowsFade rows (rows.map f) where
  ids := by
    rw [List.map_map]
    exact List.map_congr_left fun row _ => hid row
  live row' hrow' hstate := by
    obtain ⟨row, hrow, rfl⟩ := List.mem_map.mp hrow'
    exact ⟨row, hrow, (hid row).symm, hlive row hstate⟩

/-- An update of the rows keeps the ids. -/
theorem spares_map (hids : (s.rows.map (·.id)).Nodup) (hrows : s'.rows = s.rows.map f)
    (hid : ∀ row, (f row).id = row.id)
    (hspared : ∀ row ∈ s.rows, row.state = .live → s.Running row.id →
      (f row).state ≠ .orphaned) : Spares s s' := by
  intro row hrow hlive hrunning row' hrow' hsame
  rw [hrows] at hrow'
  obtain ⟨before, hbefore, rfl⟩ := List.mem_map.mp hrow'
  obtain rfl := List.inj_on_of_nodup_map hids hbefore hrow ((hid before).symm.trans hsame)
  exact hspared before hbefore hlive hrunning

theorem spares_same (hids : (s.rows.map (·.id)).Nodup) (hrows : s'.rows = s.rows) :
    Spares s s' := by
  refine spares_map hids (hrows.trans (List.map_id s.rows).symm) (fun _ => rfl)
    fun row _ hlive _ horphaned => ?_
  rw [id_eq, hlive] at horphaned
  cases horphaned

/-- An update of one row. -/
def atId (id : Uuid) (f : PtyRow → PtyRow) (row : PtyRow) : PtyRow :=
  if row.id = id then f row else row

theorem atId_id (hid : ∀ row, (f row).id = row.id) (row : PtyRow) :
    (atId id f row).id = row.id := by
  unfold atId
  split
  · exact hid row
  · rfl

/-- A row that ends. -/
theorem rowsFade_updateRow (hended : ∀ row, (f row).id = row.id ∧ (f row).state ≠ .live) :
    RowsFade rows (updateRow id f rows) := by
  refine .map (f := atId id f) (atId_id fun row => (hended row).1) fun row hlive => ?_
  unfold atId at hlive
  split at hlive
  · exact absurd hlive (hended row).2
  · exact hlive

theorem spares_updateRow (hids : (s.rows.map (·.id)).Nodup)
    (hrows : s'.rows = updateRow id f s.rows)
    (hended : ∀ row, (f row).id = row.id ∧ (f row).state ≠ .live)
    (hspared : ∀ row, row.state = .live → s.Running id → (f row).state ≠ .orphaned) :
    Spares s s' := by
  refine spares_map (f := atId id f) hids hrows (atId_id fun row => (hended row).1) fun row _ hlive
    hrunning => ?_
  unfold atId
  split
  · rename_i hown
    exact hspared row hlive (hown ▸ hrunning)
  · rw [hlive]
    exact nofun

/-- One row in an update of the live rows of a node. -/
def liveRow (nodeId : Uuid) (p : PtyRow → Bool) (f : PtyRow → PtyRow) (row : PtyRow) : PtyRow :=
  if row.nodeId = some nodeId ∧ row.state = .live ∧ p row then f row else row

theorem liveRow_same {nodeId : Uuid} {p : PtyRow → Bool}
    (hf : ∀ row, (f row).id = row.id ∧ (f row).state = row.state) (row : PtyRow) :
    (liveRow nodeId p f row).id = row.id ∧ (liveRow nodeId p f row).state = row.state := by
  unfold liveRow
  split
  · exact hf row
  · exact ⟨rfl, rfl⟩

theorem adoptSessions_map (nodeId bootId : Uuid) (ids : List Uuid) :
    ∃ f : PtyRow → PtyRow, (∀ rows, adoptSessions nodeId bootId ids rows = rows.map f) ∧
      ∀ row, (f row).id = row.id ∧ (f row).state = row.state :=
  ⟨liveRow _ _ _, fun _ => rfl, liveRow_same fun _ => ⟨rfl, rfl⟩⟩

theorem reconnectSessions_map (nodeId bootId : Uuid) (ids : List Uuid) :
    ∃ f : PtyRow → PtyRow, (∀ rows, reconnectSessions nodeId bootId ids rows = rows.map f) ∧
      ∀ row, (f row).id = row.id ∧ (f row).state = row.state :=
  ⟨liveRow _ _ _, fun _ => rfl, liveRow_same fun _ => ⟨rfl, rfl⟩⟩

theorem reconcileMissingSessions_map (nodeId : Uuid) (ids : List Uuid) (now : Timestamp) :
    ∃ f : PtyRow → PtyRow, (∀ rows, reconcileMissingSessions nodeId ids now rows = rows.map f) ∧
      ∀ row, (f row).id = row.id ∧ ((f row).state = .live → row.state = .live) ∧
        (row.state = .live → row.id ∈ ids → (f row).state = .live) := by
  refine ⟨liveRow _ _ _, fun _ => rfl, fun row => ?_⟩
  unfold liveRow
  split
  · rename_i hmissing
    exact ⟨rfl, nofun, fun _ hlisted => absurd hlisted (of_decide_eq_true hmissing.2.2)⟩
  · exact ⟨rfl, id, fun hlive _ => hlive⟩

/-- What a heartbeat makes of the rows: none becomes live, and a live one that it lists stays so. -/
theorem heartbeatSessions_map (nodeId bootId : Uuid) (ids : List Uuid) (now : Timestamp) :
    ∃ f : PtyRow →
      PtyRow, (∀ rows, heartbeatSessions nodeId bootId ids true now rows = rows.map f) ∧
      ∀ row, (f row).id = row.id ∧ ((f row).state = .live → row.state = .live) ∧
        (row.state = .live → row.id ∈ ids → (f row).state = .live) := by
  obtain ⟨adopt, hadopt, hadopted⟩ := adoptSessions_map nodeId bootId ids
  obtain ⟨reconnect, hreconnect, hreconnected⟩ := reconnectSessions_map nodeId bootId ids
  obtain ⟨reconcile, hreconcile, hreconciled⟩ := reconcileMissingSessions_map nodeId ids now
  by_cases hempty : ids.isEmpty = true
  · refine ⟨reconcile, fun rows => ?_, hreconciled⟩
    unfold heartbeatSessions
    rw [if_pos hempty, if_pos rfl]
    exact hreconcile rows
  · refine ⟨fun row => reconcile (reconnect (adopt row)), fun rows => ?_, fun row => ?_⟩
    · unfold heartbeatSessions
      rw [if_neg hempty, if_pos rfl]
      rw [hreconcile, hreconnect, hadopt, List.map_map, List.map_map]
      rfl
    · obtain ⟨hid, hlive, hlisted⟩ := hreconciled (reconnect (adopt row))
      rw [(hreconnected (adopt row)).1, (hadopted row).1] at hid hlisted
      rw [(hreconnected (adopt row)).2, (hadopted row).2] at hlive hlisted
      exact ⟨hid, hlive, hlisted⟩

/-! ## One step -/

/-- Nothing comes: no live row, handle, running shell, inventory or heartbeat. -/
structure Fades (s s' : State) : Prop where
  rows : RowsFade s.rows s'.rows
  handles : ∀ handle ∈ s'.handles, handle ∈ s.handles
  sessions : ∀ session ∈ s'.sessions, session.running = true → session ∈ s.sessions
  inventories : ∀ ident ids, .connected ident ids ∈ s'.wire ++ s'.events →
    LinkEvent.connected ident ids ∈ s.wire ++ s.events
  orphans : ∀ id ∈ s'.orphans, id ∈ s.orphans
  heartbeats : ∀ beat ∈ s'.heartbeats, beat ∈ s.heartbeats

theorem Inv.fades (h : Inv s) (hfades : Fades s s') : Inv s' := by
  have hrunning : ∀ id, s'.Running id → s.Running id := by
    rintro id ⟨session, hsession, hid, hrun⟩
    exact ⟨session, hfades.sessions session hsession hrun, hid, hrun⟩
  constructor
  case ids =>
    rw [hfades.rows.ids]
    exact h.ids
  case placed =>
    intro handle hhandle session hsession hid hrun
    exact h.placed handle (hfades.handles handle hhandle) session
      (hfades.sessions session hsession hrun) hid hrun
  case listed =>
    intro handle hhandle hrun event hevent
    cases event with
    | exited id exitCode => exact trivial
    | connected host ids =>
        exact h.listed handle (hfades.handles handle hhandle) (hrunning _ hrun) _
          (hfades.inventories host ids hevent)
  case orphans => exact fun id hid hrun => h.orphans id (hfades.orphans id hid) (hrunning id hrun)
  case beats =>
    intro beat hbeat row' hrow' hlive hrun
    obtain ⟨row, hrow, hid, hbefore⟩ := hfades.rows.live row' hrow' hlive
    rw [← hid] at hrun ⊢
    exact h.beats beat (hfades.heartbeats beat hbeat) row hrow hbefore (hrunning _ hrun)

theorem Fades.refl (s : State) : Fades s s :=
  ⟨.refl _, fun _ h => h, fun _ h _ => h, fun _ _ h => h, fun _ h => h, fun _ h => h⟩

theorem Fades.same (hrows : s'.rows = s.rows) (hhandles : s'.handles = s.handles)
    (hsessions : s'.sessions = s.sessions) (hwire : s'.wire = s.wire)
    (hevents : s'.events = s.events) (horphans : s'.orphans = s.orphans)
    (hheartbeats : s'.heartbeats = s.heartbeats) : Fades s s' := by
  constructor
  case rows =>
    rw [hrows]
    exact .refl _
  all_goals simp only [hhandles, hsessions, hwire, hevents, horphans, hheartbeats]
  case sessions => exact fun _ h _ => h
  case inventories => exact fun _ _ h => h
  all_goals exact fun _ h => h

theorem fades_eraseHandle (s : State) (id : Uuid) : Fades s (s.eraseHandle id) :=
  { Fades.refl s with handles := fun _ h => List.mem_of_mem_filter h }

/-- **The heartbeat is built.** -/
theorem Inv.beat (h : Inv s) (connection : Node.ConnectionId)
    (htimely : ∀ row ∈ s.rows, row.state = .live → s.Running row.id →
      row.id ∈ s.handles.map (·.1)) :
    Inv { s with
      heartbeats := s.heartbeats ++ [⟨s.bootId, connection, s.handles.map (·.1)⟩] } where
  ids := h.ids
  placed := h.placed
  listed := h.listed
  orphans := h.orphans
  beats beat hbeat row hrow hlive hrun := by
    rcases List.mem_append.mp hbeat with hold | hnew
    · exact h.beats beat hold row hrow hlive hrun
    · obtain rfl := List.mem_singleton.mp hnew
      exact htimely row hrow hlive hrun

/-- **The heartbeat is applied**: it lists every live row whose shell runs. -/
theorem Inv.apply (h : Inv s) {j : Nat} {now : Timestamp}
    (hstep : step s (.apply j now) = some s') : Inv s' ∧ Spares s s' := by
  obtain ⟨beat, hbeat, rfl⟩ := Option.map_eq_some_iff.mp hstep
  have hmem := List.mem_of_getElem? hbeat
  have hdropped : Fades s { s with heartbeats := s.heartbeats.eraseIdx j } :=
    { Fades.refl s with heartbeats := fun _ h => List.mem_of_mem_eraseIdx h }
  dsimp only
  split
  · exact ⟨h.fades hdropped, spares_same h.ids rfl⟩
  · obtain ⟨f, hf, hrow⟩ := heartbeatSessions_map s.nodeId beat.bootId beat.liveSessionIds now
    have hmap : RowsFade s.rows (heartbeatSessions s.nodeId beat.bootId beat.liveSessionIds true now
        s.rows) := by
      rw [hf]
      exact .map (fun row => (hrow row).1) fun row => (hrow row).2.1
    refine ⟨h.fades { hdropped with rows := hmap }, ?_⟩
    refine spares_map h.ids (hf s.rows) (fun row => (hrow row).1) fun row hrows hlive hrun => ?_
    rw [(hrow row).2.2 hlive (h.beats beat hmem row hrows hlive hrun)]
    exact nofun

theorem mem_putRow {row row' : PtyRow} (h : row' ∈ putRow row rows) :
    row' = row ∨ row' ∈ rows ∧ row'.id ≠ row.id := by
  unfold putRow at h
  split at h
  · obtain ⟨before, hbefore, rfl⟩ := List.mem_map.mp h
    by_cases hid : before.id = row.id
    · exact .inl (if_pos hid)
    · rw [if_neg hid]
      exact .inr ⟨hbefore, hid⟩
  · rename_i hnew
    rcases List.mem_append.mp h with hold | hlast
    · refine .inr ⟨hold, fun hid => hnew ?_⟩
      exact List.any_eq_true.mpr ⟨row', hold, decide_eq_true hid⟩
    · exact .inl (List.mem_singleton.mp hlast)

theorem nodup_putRow {row : PtyRow} (h : (rows.map (·.id)).Nodup) :
    ((putRow row rows).map (·.id)).Nodup := by
  unfold putRow
  split
  · have hids : (updateRow row.id (fun _ => row) rows).map (·.id) = rows.map (·.id) := by
      unfold updateRow
      rw [List.map_map]
      refine List.map_congr_left fun before _ => ?_
      by_cases hid : before.id = row.id
      · simp [hid]
      · simp [hid]
    rw [hids]
    exact h
  · rename_i hnew
    rw [List.map_append, List.nodup_append]
    refine ⟨h, List.nodup_singleton _, ?_⟩
    rintro id hmem _ hone rfl
    obtain ⟨before, hbefore, hid⟩ := List.mem_map.mp hmem
    refine hnew (List.any_eq_true.mpr ⟨before, hbefore, decide_eq_true ?_⟩)
    exact hid.trans (List.mem_singleton.mp hone)

/-- A row that `persist_spawn` writes, and the one that it finds. -/
theorem persistSpawn_some {old : Option PtyRow} {nodeId bootId : Option Uuid} {now : Timestamp}
    {row : PtyRow} (h : PtyRow.persistSpawn old id nodeId bootId now = some row)
    (hold : ∀ before ∈ old, before.id = id) :
    row.id = id ∧ ∀ before ∈ old, before.state ≠ .live := by
  unfold PtyRow.persistSpawn at h
  split at h
  · rename_i before
    split at h
    · rename_i hstate
      obtain rfl := Option.some.inj h
      refine ⟨hold before rfl, fun other hother => ?_⟩
      obtain rfl := Option.some.inj hother
      exact hstate
    · cases h
  · obtain rfl := Option.some.inj h
    exact ⟨rfl, fun before hnone => absurd hnone (Option.not_mem_none before)⟩

/-- **A row becomes live.** -/
theorem Inv.persist (h : Inv s) {k : Nat} {now : Timestamp} {row : PtyRow} {stage : Stage}
    (hpersist : PtyRow.persistSpawn (s.rows.find? (·.id = id)) id (some s.nodeId) (some s.bootId)
      now = some row) (htimely : s.Running id → s.heartbeats = []) :
    Inv { s.setStage k id stage with rows := putRow row s.rows } ∧
      Spares s { s.setStage k id stage with rows := putRow row s.rows } := by
  have hfound : ∀ before ∈ s.rows.find? (·.id = id), before.id = id := by
    intro before hbefore
    have hfind : s.rows.find? (·.id = id) = some before := hbefore
    simpa using List.find?_some hfind
  obtain ⟨hid, hdead⟩ := persistSpawn_some hpersist hfound
  refine ⟨⟨nodup_putRow h.ids, h.placed, h.listed, h.orphans, ?_⟩, ?_⟩
  · intro beat hbeat row' hrow' hlive hrun
    rcases mem_putRow hrow' with rfl | ⟨hold, -⟩
    · rw [hid] at hrun
      have hnone : beat ∈ ([] : List Heartbeat) := htimely hrun ▸ hbeat
      exact absurd hnone List.not_mem_nil
    · exact h.beats beat hbeat row' hold hlive hrun
  · intro before hbefore hlive hrun row' hrow' hsame
    rcases mem_putRow hrow' with rfl | ⟨hold, -⟩
    · -- the row that was there is not live
      have hsome : (s.rows.find? (·.id = id)).isSome = true := by
        rw [List.find?_isSome]
        exact ⟨before, hbefore, decide_eq_true (hsame.symm.trans hid)⟩
      obtain ⟨found, hfind⟩ := Option.isSome_iff_exists.mp hsome
      have hmem := List.mem_of_find?_eq_some hfind
      obtain rfl := List.inj_on_of_nodup_map h.ids hmem hbefore
        ((hfound found hfind).trans (hid.symm.trans hsame))
      exact absurd hlive (hdead found hfind)
    · obtain rfl := List.inj_on_of_nodup_map h.ids hold hbefore hsame
      rw [hlive]
      exact nofun

/-- **A shell starts.** -/
theorem Inv.start (h : Inv s) {frame : SpawnFrame} {spawns : List Spawn}
    (hbeats : s.heartbeats = []) (horphan : frame.id ∉ s.orphans)
    (hhandle : frame.id ∉ s.handles.map (·.1)) :
    Inv { s with
      sessions := s.sessions ++ [⟨frame.id, frame.ident, true⟩], spawns := spawns } := by
  have hrunning : ∀ id, State.Running { s with
      sessions := s.sessions ++ [⟨frame.id, frame.ident, true⟩], spawns := spawns } id →
      s.Running id ∨ id = frame.id := by
    rintro id ⟨session, hsession, hid, hrun⟩
    rcases List.mem_append.mp hsession with hold | hnew
    · exact .inl ⟨session, hold, hid, hrun⟩
    · obtain rfl := List.mem_singleton.mp hnew
      exact .inr hid.symm
  have hother : ∀ handle ∈ s.handles, handle.1 ≠ frame.id := fun handle hmem heq =>
    hhandle (heq ▸ List.mem_map_of_mem hmem)
  constructor
  case ids => exact h.ids
  case placed =>
    intro handle hmem session hsession hid hrun
    rcases List.mem_append.mp hsession with hold | hnew
    · exact h.placed handle hmem session hold hid hrun
    · obtain rfl := List.mem_singleton.mp hnew
      exact absurd hid.symm (hother handle hmem)
  case listed =>
    intro handle hmem hrun
    rcases hrunning _ hrun with hold | hnew
    · exact h.listed handle hmem hold
    · exact absurd hnew (hother handle hmem)
  case orphans =>
    intro id hid hrun
    rcases hrunning id hrun with hold | rfl
    · exact h.orphans id hid hold
    · exact horphan hid
  case beats =>
    intro beat hbeat
    have hnone : beat ∈ ([] : List Heartbeat) := hbeats ▸ hbeat
    exact absurd hnone List.not_mem_nil

/-- **A handle is put.** -/
theorem Inv.putHandle (h : Inv s) {ident : String}
    (htimely : s.MayTrack id ident) :
    Inv (s.putHandle id ident) := by
  constructor
  case ids => exact h.ids
  case placed =>
    intro handle hmem session hsession hid hrun
    rcases List.mem_cons.mp hmem with rfl | hold
    · exact (htimely ⟨session, hsession, hid, hrun⟩).2 session hsession hid hrun
    · exact h.placed handle (List.mem_of_mem_filter hold) session hsession hid hrun
  case listed =>
    intro handle hmem hrun
    rcases List.mem_cons.mp hmem with rfl | hold
    · exact (htimely hrun).1
    · exact h.listed handle (List.mem_of_mem_filter hold) hrun
  case orphans => exact h.orphans
  case beats => exact h.beats

/-- **A devenv dials**: its inventory has every shell that runs there. -/
theorem Inv.dial (h : Inv s) (ident : String) :
    Inv { s with wire := s.wire ++ [.connected ident (s.hostedOn ident)] } := by
  refine ⟨h.ids, h.placed, fun handle hmem hrun event hevent => ?_, h.orphans, h.beats⟩
  rcases List.mem_append.mp hevent with hwire | hqueued
  · rcases List.mem_append.mp hwire with hold | hnew
    · exact h.listed handle hmem hrun event (List.mem_append_left _ hold)
    · obtain rfl := List.mem_singleton.mp hnew
      rintro rfl
      obtain ⟨session, hsession, hid, hup⟩ := hrun
      have hident := h.placed handle hmem session hsession hid hup
      exact List.mem_map.mpr ⟨session, List.mem_filter.mpr ⟨hsession, decide_eq_true hident⟩, hid⟩
  · exact h.listed handle hmem hrun event (List.mem_append_right _ hqueued)

/-- **A connection is compared with the handles**: those that it misses have no shell. -/
theorem Inv.connected (h : Inv s) {ident : String} {ids : List Uuid} {rest : List LinkEvent}
    {now : Timestamp} (hevents : s.events = .connected ident ids :: rest) :
    Inv ({ s with events := rest }.handleEvent now (.connected ident ids)) := by
  have hqueued : LinkEvent.connected ident ids ∈ s.wire ++ s.events := by
    rw [hevents]
    exact List.mem_append_right _ List.mem_cons_self
  refine ⟨h.ids, h.placed, fun handle hmem hrun event hevent => ?_, fun id hid hrun => ?_, h.beats⟩
  · refine h.listed handle hmem hrun event ?_
    rcases List.mem_append.mp hevent with hwire | hrest
    · exact List.mem_append_left _ hwire
    · rw [hevents]
      exact List.mem_append_right _ (List.mem_cons_of_mem _ hrest)
  · obtain ⟨handle, hhandle, rfl⟩ := List.mem_map.mp hid
    obtain ⟨hmem, hmissed⟩ := List.mem_filter.mp hhandle
    obtain ⟨hident, hnot⟩ := of_decide_eq_true hmissed
    exact hnot (h.listed handle hmem hrun _ hqueued hident.symm)

theorem Inv.event (h : Inv s) {now : Timestamp} (hstep : step s (.event now) = some s') :
    Inv s' ∧ Spares s s' := by
  unfold step at hstep
  dsimp only at hstep
  split at hstep
  · rename_i event rest _ _ hevents
    obtain rfl := Option.some.inj hstep
    cases event with
    | connected ident ids => exact ⟨h.connected hevents, spares_same h.ids rfl⟩
    | exited id exitCode =>
        have hended := fun row : PtyRow => row.markDead_ended now exitCode
        refine ⟨h.fades ⟨rowsFade_updateRow hended, ?_, fun _ h _ => h, ?_, fun _ h => h,
          fun _ h => h⟩, spares_updateRow h.ids rfl hended fun row hbefore _ => ?_⟩
        · exact (fades_eraseHandle s id).handles
        · intro ident ids hmem
          rcases List.mem_append.mp hmem with hwire | hrest
          · exact List.mem_append_left _ hwire
          · rw [hevents]
            exact List.mem_append_right _ (List.mem_cons_of_mem _ hrest)
        · unfold PtyRow.markDead
          rw [if_pos hbefore]
          exact nofun
  · cases hstep

theorem Inv.orphan (h : Inv s) {now : Timestamp} (hstep : step s (.orphan now) = some s') :
    Inv s' ∧ Spares s s' := by
  unfold step at hstep
  dsimp only at hstep
  split at hstep
  · rename_i id rest horphans
    obtain rfl := Option.some.inj hstep
    have hended := fun row : PtyRow => row.markOrphaned_ended now
    refine ⟨h.fades ⟨rowsFade_updateRow hended, (fades_eraseHandle s id).handles,
      fun _ h _ => h, fun _ _ h => h, fun other hother => ?_, fun _ h => h⟩,
      spares_updateRow h.ids rfl hended fun row _ hrun => ?_⟩
    · rw [horphans]
      exact List.mem_cons_of_mem _ hother
    · -- the shell of a session that is to be orphaned does not run
      refine absurd hrun (h.orphans id ?_)
      rw [horphans]
      exact List.mem_cons_self
  · cases hstep

theorem Inv.giveUp (h : Inv s) {k : Nat} {now : Timestamp}
    (hstep : step s (.giveUp k now) = some s') : Inv s' ∧ Spares s s' := by
  have hended := fun row : PtyRow => row.abandonUnspawned_ended now
  have hgone : ∃ id, s' = { s.setStage k id .gone with
      rows := updateRow id (fun row => row.abandonUnspawned now) s.rows } := by
    unfold step at hstep
    dsimp only at hstep
    split at hstep
    · exact ⟨_, (Option.some.inj hstep).symm⟩
    · exact ⟨_, (Option.some.inj hstep).symm⟩
    · exact ⟨_, (Option.some.inj hstep).symm⟩
    · cases hstep
  obtain ⟨id, rfl⟩ := hgone
  refine ⟨h.fades { Fades.refl s with rows := rowsFade_updateRow hended },
    spares_updateRow h.ids rfl hended fun row hbefore _ => ?_⟩
  unfold PtyRow.abandonUnspawned
  rw [if_pos hbefore]
  exact nofun

theorem Inv.persistStep (h : Inv s) {k : Nat} {now : Timestamp}
    (htimely : Timely s (.persist k now))
    (hstep : step s (.persist k now) = some s') : Inv s' ∧ Spares s s' := by
  unfold step at hstep
  dsimp only at hstep
  split at hstep
  · rename_i id hspawn
    split at hstep
    · obtain rfl := Option.some.inj hstep
      exact ⟨h.fades (.same rfl rfl rfl rfl rfl rfl rfl), spares_same h.ids rfl⟩
    · rename_i row hpersist
      obtain rfl := Option.some.inj hstep
      exact h.persist hpersist (htimely _ hspawn)
  · cases hstep

theorem Inv.startStep (h : Inv s) {j : Nat} (htimely : Timely s (.start j))
    (hstep : step s (.start j) = some s') : Inv s' ∧ Spares s s' := by
  obtain ⟨frame, hframe, rfl⟩ := Option.map_eq_some_iff.mp hstep
  obtain ⟨hbeats, horphan, hhandle⟩ := htimely frame hframe
  have hkept : Inv { s with frames := s.frames.eraseIdx j } :=
    h.fades (.same rfl rfl rfl rfl rfl rfl rfl)
  unfold State.handleSpawn
  split
  · exact ⟨hkept, spares_same h.ids rfl⟩
  · dsimp only
    split
    · exact ⟨hkept.start hbeats horphan hhandle, spares_same h.ids rfl⟩
    · exact ⟨hkept.start hbeats horphan hhandle, spares_same h.ids rfl⟩

theorem Inv.registerStep (h : Inv s) {k : Nat} {tracked : Bool}
    (htimely : Timely s (.register k tracked)) (hstep : step s (.register k tracked) = some s') :
    Inv s' ∧ Spares s s' := by
  unfold step at hstep
  dsimp only at hstep
  split at hstep
  · rename_i id ident hspawn
    have hkept : Inv (s.setStage k id .gone) := h.fades (.same rfl rfl rfl rfl rfl rfl rfl)
    obtain rfl := Option.some.inj hstep
    split
    · exact ⟨hkept.putHandle (htimely _ hspawn), spares_same h.ids rfl⟩
    · exact ⟨hkept, spares_same h.ids rfl⟩
  · cases hstep

theorem Inv.adoptStep (h : Inv s) {accepted : Bool} (htimely : Timely s (.adopt accepted))
    (hstep : step s (.adopt accepted) = some s') : Inv s' ∧ Spares s s' := by
  unfold step at hstep
  dsimp only at hstep
  split at hstep
  · rename_i id ident rest _ hadoptions
    have hkept : Inv { s with adoptions := rest } := h.fades (.same rfl rfl rfl rfl rfl rfl rfl)
    have hhead : (id, ident) ∈ s.adoptions.head? := by
      rw [hadoptions]
      rfl
    obtain rfl := Option.some.inj hstep
    split
    · exact ⟨hkept.putHandle (htimely _ hhead), spares_same h.ids rfl⟩
    · exact ⟨hkept, spares_same h.ids rfl⟩
  · cases hstep

/-- A shell that exits. -/
theorem fades_exit (s : State) (id : Uuid) (ident : String) (exitCode : Option Int) :
    Fades s { s with
      sessions := s.sessions.map fun session =>
        if session = ⟨id, ident, true⟩ then ⟨id, ident, false⟩ else session
      wire := s.wire ++ [.exited id exitCode] } := by
  refine ⟨.refl _, fun _ h => h, fun session hsession hrun => ?_, fun host ids hmem => ?_,
    fun _ h => h, fun _ h => h⟩
  · obtain ⟨before, hbefore, rfl⟩ := List.mem_map.mp hsession
    by_cases hexited : before = ⟨id, ident, true⟩
    · rw [if_pos hexited] at hrun
      cases hrun
    · rw [if_neg hexited]
      exact hbefore
  · rcases List.mem_append.mp hmem with hwire | hevents
    · rcases List.mem_append.mp hwire with hold | hnew
      · exact List.mem_append_left _ hold
      · cases List.mem_singleton.mp hnew
    · exact List.mem_append_right _ hevents

/-- A frame that the link handles. -/
theorem fades_handle {j : Nat} {event : LinkEvent} (hevent : s.wire[j]? = some event) :
    Fades s { s with wire := s.wire.eraseIdx j, events := s.events ++ [event] } := by
  refine { Fades.refl s with inventories := fun ident ids hmem => ?_ }
  rcases List.mem_append.mp hmem with hwire | hevents
  · exact List.mem_append_left _ (List.mem_of_mem_eraseIdx hwire)
  · rcases List.mem_append.mp hevents with hold | hnew
    · exact List.mem_append_right _ hold
    · rw [List.mem_singleton.mp hnew]
      exact List.mem_append_left _ (List.mem_of_getElem? hevent)

/-- **One step.** -/
theorem Inv.step {a : Action} (h : Inv s) (htimely : Timely s a) (hstep : step s a = some s') :
    Inv s' ∧ Spares s s' := by
  cases a with
  | apply j now => exact h.apply hstep
  | persist k now => exact h.persistStep htimely hstep
  | start j => exact h.startStep htimely hstep
  | giveUp k now => exact h.giveUp hstep
  | register k tracked => exact h.registerStep htimely hstep
  | event now => exact h.event hstep
  | orphan now => exact h.orphan hstep
  | adopt accepted => exact h.adoptStep htimely hstep
  | connect connection now =>
      obtain rfl := Option.some.inj hstep
      exact ⟨h.fades (.same rfl rfl rfl rfl rfl rfl rfl), spares_same h.ids rfl⟩
  | disconnect =>
      obtain rfl := Option.some.inj hstep
      exact ⟨h.fades (.same rfl rfl rfl rfl rfl rfl rfl), spares_same h.ids rfl⟩
  | beat =>
      obtain ⟨connection, -, rfl⟩ := Option.map_eq_some_iff.mp hstep
      exact ⟨h.beat connection htimely, spares_same h.ids rfl⟩
  | dropBeat j =>
      obtain rfl := Option.some.inj hstep
      refine ⟨h.fades { Fades.refl s with heartbeats := ?_ }, spares_same h.ids rfl⟩
      exact fun _ hmem => List.mem_of_mem_eraseIdx hmem
  | spawn id =>
      unfold Inventory.step at hstep
      dsimp only at hstep
      split at hstep
      · cases hstep
      · obtain rfl := Option.some.inj hstep
        exact ⟨h.fades (.same rfl rfl rfl rfl rfl rfl rfl), spares_same h.ids rfl⟩
  | send k ident =>
      unfold Inventory.step at hstep
      dsimp only at hstep
      split at hstep
      · obtain rfl := Option.some.inj hstep
        exact ⟨h.fades (.same rfl rfl rfl rfl rfl rfl rfl), spares_same h.ids rfl⟩
      · cases hstep
  | dropSpawn j =>
      obtain rfl := Option.some.inj hstep
      exact ⟨h.fades (.same rfl rfl rfl rfl rfl rfl rfl), spares_same h.ids rfl⟩
  | restart bootId =>
      obtain rfl := Option.some.inj hstep
      refine ⟨h.fades { Fades.refl s with handles := ?_, inventories := ?_, orphans := ?_ },
        spares_same h.ids rfl⟩
      · exact List.forall_mem_nil _
      · exact fun _ _ hmem => absurd hmem List.not_mem_nil
      · exact List.forall_mem_nil _
  | dial ident =>
      obtain rfl := Option.some.inj hstep
      exact ⟨h.dial ident, spares_same h.ids rfl⟩
  | exit id ident exitCode =>
      unfold Inventory.step at hstep
      dsimp only at hstep
      split at hstep
      · obtain rfl := Option.some.inj hstep
        exact ⟨h.fades (fades_exit s id ident exitCode), spares_same h.ids rfl⟩
      · cases hstep
  | remove id ident =>
      obtain rfl := Option.some.inj hstep
      refine ⟨h.fades { Fades.refl s with sessions := ?_ }, spares_same h.ids rfl⟩
      exact fun _ hmem _ => List.mem_of_mem_filter hmem
  | lose ident =>
      obtain rfl := Option.some.inj hstep
      refine ⟨h.fades { Fades.refl s with sessions := ?_ }, spares_same h.ids rfl⟩
      exact fun _ hmem _ => List.mem_of_mem_filter hmem
  | handle j =>
      obtain ⟨event, hevent, rfl⟩ := Option.map_eq_some_iff.mp hstep
      exact ⟨h.fades (fades_handle hevent), spares_same h.ids rfl⟩
  | dropFrame j =>
      obtain rfl := Option.some.inj hstep
      refine ⟨h.fades { Fades.refl s with inventories := ?_ }, spares_same h.ids rfl⟩
      intro ident ids hmem
      exact (List.mem_append.mp hmem).elim
        (fun hwire => List.mem_append_left _ (List.mem_of_mem_eraseIdx hwire))
        fun hevents => List.mem_append_right _ hevents
  | delete id =>
      obtain rfl := Option.some.inj hstep
      exact ⟨h.fades (fades_eraseHandle s id), spares_same h.ids rfl⟩
  | deleteRow id now =>
      obtain rfl := Option.some.inj hstep
      have hended := fun row : PtyRow => row.delete_ended now
      have hdeleted : ∀ row : PtyRow, (row.delete now).state = .deleted := fun _ => rfl
      refine ⟨h.fades { Fades.refl s with rows := rowsFade_updateRow hended },
        spares_updateRow h.ids rfl hended fun row _ _ => ?_⟩
      rw [hdeleted]
      exact nofun

theorem inv_fresh (h : Fresh s) : Inv s := by
  have hhandles : ∀ handle, handle ∉ s.handles := by
    intro handle
    rw [h.handles]
    exact List.not_mem_nil
  refine ⟨h.ids, fun handle hmem => absurd hmem (hhandles handle),
    fun handle hmem => absurd hmem (hhandles handle), ?_, ?_⟩
  · rw [h.orphans]
    exact List.forall_mem_nil _
  · rw [h.heartbeats]
    exact List.forall_mem_nil _

end Proofs

/-- **A running shell is not orphaned**, in every run of spawns, upgrades, exits, connections,
restarts and heartbeats that meets the condition. -/
theorem running_not_orphaned {start s s' : State} {a : Action} (hstart : Fresh start)
    (hrun : Run step Timely start s) (htimely : Timely s a) (hstep : step s a = some s') :
    ∀ row ∈ s.rows, row.state = .live → s.Running row.id →
      ∀ row' ∈ s'.rows, row'.id = row.id → row'.state ≠ .orphaned := by
  have hinv : Inv s :=
    hrun.invariant (fun _ _ _ h hok hnext => (h.step hok hnext).1) (inv_fresh hstart)
  exact (hinv.step htimely hstep).2

/-! ## A node that restarts -/

def sampleNode : DevNode where
  credentialKind := .ed25519
  publicKey := none
  pendingPublicKey := none
  protocolVersion := none
  bootId := none
  connectionId := none
  connectionState := .enrolled
  enrolledAt := none
  connectedAt := none
  lastHeartbeatAt := none
  nodeDisconnectedAt := none

def sampleRow : PtyRow where
  id := 1
  nodeId := some 9
  nodeBootId := some 6
  state := .live
  createdAt := 0
  endedAt := none
  exitCode := none
  runtimeEndReason := none
  nodeDisconnectedAt := none
  devenvIdent := some "tools"

/-- The shell runs in the devenv, and the node process is new. -/
def restarted : State where
  nodeId := 9
  node := sampleNode
  rows := [sampleRow]
  sessions := [⟨1, "tools", true⟩]
  bootId := 7

theorem fresh_restarted : Fresh restarted := ⟨List.nodup_singleton _, rfl, rfl, rfl⟩

/-- The devenv dials and its session is adopted before the heartbeat. -/
def adoptedFirst : List Action :=
  [.connect 1 5, .dial "tools", .handle 0, .event 6, .adopt true, .beat]

/-- The heartbeat is built before the devenv has dialled. -/
def beatFirst : List Action := [.connect 1 5, .beat]

theorem running_not_orphaned_adopted :
    ∃ s s', runList (restrict step Timely) restarted adoptedFirst =
      some s ∧ step s (.apply 0 8) = some s' ∧ s'.rows.map (·.state) = [.live] ∧
        ∀ row ∈ s.rows, row.state = .live → s.Running row.id →
          ∀ row' ∈ s'.rows, row'.id = row.id → row'.state ≠ .orphaned := by
  have hrun : ∃ s s', runList (restrict step Timely) restarted adoptedFirst = some s ∧
      step s (.apply 0 8) = some s' ∧ s'.rows.map (·.state) = [.live] := ⟨_, _, rfl, rfl, rfl⟩
  obtain ⟨s, s', hs, hstep, hlive⟩ := hrun
  exact ⟨s, s', hs, hstep, hlive, running_not_orphaned (a := .apply 0 8) fresh_restarted
    (.of_restrict adoptedFirst hs) trivial hstep⟩

/-- The first heartbeat after a restart has no session, and orphans the one whose shell runs. -/
theorem restart_orphans_running : ¬ ∀ (start s s' : State) (a : Action), Fresh start →
    Run step anyStep start s → step s a = some s' → ∀ row ∈ s.rows, row.state = .live →
      s.Running row.id → ∀ row' ∈ s'.rows, row'.id = row.id → row'.state ≠ .orphaned := by
  intro h
  have hrun : ∃ s s' row', runList step restarted beatFirst = some s ∧
      step s (.apply 0 8) = some s' ∧ s.rows = [sampleRow] ∧ s.sessions = [⟨1, "tools", true⟩] ∧
      s'.rows = [row'] ∧ row'.id = 1 ∧ row'.state = .orphaned :=
    ⟨_, _, _, rfl, rfl, rfl, rfl, rfl, rfl, rfl⟩
  obtain ⟨s, s', row', hs, hstep, hrows, hsessions, hrows', hid, horphaned⟩ := hrun
  refine h restarted s s' _ fresh_restarted (.of_runList beatFirst hs) hstep sampleRow ?_ rfl ?_
    row' ?_ hid horphaned
  · rw [hrows]
    exact List.mem_cons_self
  · refine ⟨⟨1, "tools", true⟩, ?_, rfl, rfl⟩
    rw [hsessions]
    exact List.mem_cons_self
  · rw [hrows']
    exact List.mem_cons_self

end Sulion.Devenv.Inventory
