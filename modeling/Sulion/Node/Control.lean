import Sulion.Lib.Transition
import Sulion.Node.Store

set_option autoImplicit false

/-! # Node connections on the control plane

The state of `NodeControl` for one node: the row and the session rows in the database, the
entry of the `active` map, the samples, the terminal streams, and the place each connection has
reached. A connection is authenticated, recorded in the database and entered into the map in
separate steps; it receives heartbeats, and `disconnected` closes it in several steps. Beside
these run approvals (a transaction, then `cancel_active`), the heartbeat monitor (a transaction,
then the removal from the map) and `open_terminal`. A closed socket, a cancellation and a failed
send all end in `disconnected`, so a connection may close at any time.
-/

namespace Sulion.Node

open Pty

/-- The signed hello: the key it offers, if any, and the key that signed it. -/
structure Hello where
  bootId : Uuid
  publicKey : Option PublicKey
  signer : PublicKey
  deriving DecidableEq, Repr

structure HeartbeatPayload where
  liveSessionIds : List Uuid
  inventoryComplete : Bool
  host : Option Nat
  devenv : Option Nat
  deriving DecidableEq, Repr

/-- A stored sample and the connection that reported it. -/
structure Sample where
  reporter : ConnectionId
  value : Nat
  deriving DecidableEq, Repr

abbrev StreamId := Nat

/-- Where the handling of a heartbeat is. -/
inductive Beat
  | validated
  | stored
  | hostSaved
  deriving DecidableEq, Repr

/-- Where a call of `disconnected` is. `late` says that its connection was not in the map. -/
inductive Closing
  | guarded
  | cleared (late : Bool)
  | notifying (late : Bool) (remaining : List StreamId)
  deriving DecidableEq, Repr

/-- The place a connection has reached. -/
inductive Place
  | absent
  /-- The offered key is not the accepted one. -/
  | pairing (key : PublicKey)
  /-- Authenticated; `record_connection` comes next. -/
  | checked
  /-- Recorded; the insertion into `active` comes next. -/
  | recorded
  | open
  | beating (beat : Beat) (payload : HeartbeatPayload)
  | closing (c : Closing)
  | closed
  deriving DecidableEq, Repr

/-- A connection: its boot, the public key it authenticated with, and its place. -/
structure Connection where
  bootId : Uuid
  key : Option PublicKey
  place : Place
  deriving DecidableEq, Repr

structure Control where
  nodeId : Uuid
  heartbeatTimeout : Int
  node : Option DevNode
  sessions : List PtyRow
  active : Option ConnectionId
  hostStats : Option Sample
  devenvStatus : Option Sample
  connection : ConnectionId → Connection
  /-- The number of connections so far. -/
  connections : Nat
  /-- Approvals between their transaction and `cancel_active`. -/
  approving : Nat
  /-- Connections the heartbeat monitor has expired in the database and not yet removed. -/
  expiring : List ConnectionId
  /-- Calls of `open_terminal` that have read the boot of the active connection. -/
  opening : List ConnectionId
  /-- The keys of `terminal_streams`. -/
  terminalStreams : List StreamId
  /-- The connection a stream was opened over. -/
  openedOver : StreamId → ConnectionId
  /-- The `Disconnected` events a stream has received. -/
  disconnects : StreamId → Nat
  nextStream : StreamId
  /-- The number of insertions into `active` so far, and the place of each among them. -/
  insertions : Nat
  rank : ConnectionId → Nat

namespace Control

/-- `host_stats`. -/
def currentHostStats (s : Control) : Option Sample := s.active.bind fun _ => s.hostStats

/-- `devenv_status`. -/
def currentDevenvStatus (s : Control) : Option Sample := s.active.bind fun _ => s.devenvStatus

/-- Connection `i` goes on to `place`. -/
def goTo (s : Control) (i : ConnectionId) (place : Place) : Control :=
  { s with connection := Function.update s.connection i { s.connection i with place := place } }

@[simp, grind =] theorem goTo_key (s : Control) (i j : ConnectionId) (place : Place) :
    ((s.goTo i place).connection j).key = (s.connection j).key := by
  by_cases hj : j = i
  · subst hj
    simp [goTo]
  · simp [goTo, hj]

@[simp, grind =] theorem goTo_place (s : Control) (i j : ConnectionId) (place : Place) :
    ((s.goTo i place).connection j).place = if j = i then place else (s.connection j).place := by
  by_cases hj : j = i
  · subst hj
    simp [goTo]
  · simp [goTo, hj]

section

variable (s : Control) (i : ConnectionId) (place : Place)

@[simp, grind =] theorem goTo_node : (s.goTo i place).node = s.node := rfl

@[simp, grind =] theorem goTo_active : (s.goTo i place).active = s.active := rfl

@[simp, grind =] theorem goTo_hostStats : (s.goTo i place).hostStats = s.hostStats := rfl

@[simp, grind =] theorem goTo_devenvStatus : (s.goTo i place).devenvStatus = s.devenvStatus := rfl

@[simp, grind =] theorem goTo_connections : (s.goTo i place).connections = s.connections := rfl

@[simp, grind =] theorem goTo_approving : (s.goTo i place).approving = s.approving := rfl

@[simp, grind =] theorem goTo_expiring : (s.goTo i place).expiring = s.expiring := rfl

@[simp, grind =] theorem goTo_opening : (s.goTo i place).opening = s.opening := rfl

@[simp, grind =] theorem goTo_terminalStreams :
  (s.goTo i place).terminalStreams = s.terminalStreams := rfl

@[simp, grind =] theorem goTo_openedOver : (s.goTo i place).openedOver = s.openedOver := rfl

@[simp, grind =] theorem goTo_nextStream : (s.goTo i place).nextStream = s.nextStream := rfl

@[simp, grind =] theorem goTo_rank : (s.goTo i place).rank = s.rank := rfl

end

end Control

inductive Action
  /-- A hello arrives: `authenticate_and_register` up to the check. -/
  | authenticate (hello : Hello)
  | requestPairing (i : ConnectionId)
  /-- `start_loopback` up to `register_internal`. -/
  | startLoopback (boot : Uuid) (now : Timestamp)
  | record (i : ConnectionId) (now : Timestamp)
  | insert (i : ConnectionId)
  | validate (i : ConnectionId) (payload : HeartbeatPayload)
  | storeHeartbeat (i : ConnectionId) (now : Timestamp)
  | saveHost (i : ConnectionId)
  | saveDevenv (i : ConnectionId)
  | close (i : ConnectionId)
  | clearActive (i : ConnectionId)
  | collectStreams (i : ConnectionId)
  /-- One `try_send` of `disconnected`; it fails on a full channel. -/
  | notify (i : ConnectionId) (full : Bool)
  | recordDisconnect (i : ConnectionId) (now : Timestamp)
  | approve (now : Timestamp)
  | cancelActive
  | expire (now : Timestamp)
  | removeExpired (i : ConnectionId)
  | lookUpBoot
  | openStream (i : ConnectionId)
  | closeStream (id : StreamId)
  deriving DecidableEq, Repr

/-- The key under which a hello authenticates: the offered key, else the accepted one, when it
signed the hello. -/
def verifiedKey (credential : Option DevNode) (hello : Hello) : Option PublicKey :=
  if credential.all fun row => row.credentialKind = .ed25519 then
    (hello.publicKey <|> credential.bind DevNode.publicKey).filter fun key => key = hello.signer
  else none

/-- A new connection, at `place`. -/
def Control.connect (s : Control) (boot : Uuid) (key : Option PublicKey) (place : Place) :
    Control :=
  { s with
    connection := Function.update s.connection s.connections ⟨boot, key, place⟩
    connections := s.connections + 1 }

def step (s : Control) : Action → Option Control
  | .authenticate hello =>
      match verifiedKey s.node hello with
      | some key =>
          if hello.publicKey = none ∨ s.node.bind DevNode.publicKey = some key then
            some (s.connect hello.bootId (some key) .checked)
          else some (s.connect hello.bootId (some key) (.pairing key))
      | none => none
  | .requestPairing i =>
      match (s.connection i).place with
      | .pairing key => some { s.goTo i .closed with node := requestPairing s.node key }
      | _ => none
  | .startLoopback boot now =>
      match ensureInternalNode s.node now with
      | some row => some { s.connect boot none .checked with node := some row }
      | none => none
  | .record i now =>
      match (s.connection i).place, s.node with
      | .checked, some row =>
          some { s.goTo i .recorded with
            node := some (row.recordConnection 1 (s.connection i).bootId i now) }
      | _, _ => none
  | .insert i =>
      match (s.connection i).place with
      | .recorded =>
          some { s.goTo i .open with
            active := some i
            insertions := s.insertions + 1
            rank := Function.update s.rank i (s.insertions + 1) }
      | _ => none
  | .validate i payload =>
      match (s.connection i).place with
      | .open =>
          if s.active = some i then some (s.goTo i (.beating .validated payload))
          else some (s.goTo i (.closing .guarded))
      | _ => none
  | .storeHeartbeat i now =>
      match (s.connection i).place with
      | .beating .validated payload =>
          match s.node.bind fun row => row.heartbeat (s.connection i).bootId i now with
          | some row =>
              some { s.goTo i (.beating .stored payload) with
                node := some row
                sessions := heartbeatSessions s.nodeId (s.connection i).bootId
                  payload.liveSessionIds payload.inventoryComplete now s.sessions }
          | none => some (s.goTo i (.closing .guarded))
      | _ => none
  | .saveHost i =>
      match (s.connection i).place with
      | .beating .stored payload =>
          some { s.goTo i (.beating .hostSaved payload) with
            hostStats := (payload.host.map fun value => ⟨i, value⟩) <|> s.hostStats }
      | _ => none
  | .saveDevenv i =>
      match (s.connection i).place with
      | .beating .hostSaved payload =>
          some { s.goTo i .open with
            devenvStatus := (payload.devenv.map fun value => ⟨i, value⟩) <|> s.devenvStatus }
      | _ => none
  | .close i =>
      match (s.connection i).place with
      | .open => some (s.goTo i (.closing .guarded))
      | _ => none
  | .clearActive i =>
      match (s.connection i).place with
      | .closing .guarded =>
          if s.active = some i then
            some { s.goTo i (.closing (.cleared false)) with
              active := none, hostStats := none, devenvStatus := none }
          else some (s.goTo i (.closing (.cleared true)))
      | _ => none
  | .collectStreams i =>
      match (s.connection i).place with
      | .closing (.cleared late) =>
          some (s.goTo i (.closing (.notifying late s.terminalStreams)))
      | _ => none
  | .notify i full =>
      match (s.connection i).place with
      | .closing (.notifying late (id :: remaining)) =>
          let s' := s.goTo i (.closing (.notifying late remaining))
          if full then some { s' with terminalStreams := s.terminalStreams.erase id }
          else some { s' with
            disconnects := Function.update s.disconnects id (s.disconnects id + 1) }
      | _ => none
  | .recordDisconnect i now =>
      match (s.connection i).place with
      | .closing (.notifying _ []) =>
          match s.node.bind fun row => row.disconnect (s.connection i).bootId i now with
          | some row =>
              some { s.goTo i .closed with
                node := some row
                sessions := disconnectSessions s.nodeId (s.connection i).bootId now s.sessions }
          | none => some (s.goTo i .closed)
      | _ => none
  | .approve now =>
      match s.node.bind fun row => row.approvePairing now with
      | some row =>
          some { s with
            node := some row
            sessions := markSessionsDisconnected s.nodeId now s.sessions
            approving := s.approving + 1 }
      | none => none
  | .cancelActive =>
      if 0 < s.approving then
        match s.active with
        | some _ =>
            some { s with
              active := none, hostStats := none, devenvStatus := none
              approving := s.approving - 1 }
        | none => some { s with approving := s.approving - 1 }
      else none
  | .expire now =>
      match s.node with
      | some row =>
          match row.expired (now - s.heartbeatTimeout) with
          | some (boot, connection) =>
              match row.disconnect boot connection now with
              | some row =>
                  some { s with
                    node := some row
                    sessions := disconnectSessions s.nodeId boot now s.sessions
                    expiring := connection :: s.expiring }
              | none => none
          | none => none
      | none => none
  | .removeExpired i =>
      if i ∈ s.expiring then
        some { s with
          expiring := s.expiring.erase i
          active := if s.active = some i then none else s.active }
      else none
  | .lookUpBoot => s.active.map fun i => { s with opening := i :: s.opening }
  | .openStream i =>
      if i ∈ s.opening then
        some { s with
          opening := s.opening.erase i
          terminalStreams := s.nextStream :: s.terminalStreams
          openedOver := Function.update s.openedOver s.nextStream i
          nextStream := s.nextStream + 1 }
      else none
  | .closeStream id => some { s with terminalStreams := s.terminalStreams.erase id }

/-- A control plane that has just started: nothing is connected. The connections below `former`
are those of earlier processes. -/
def Control.started (nodeId : Uuid) (heartbeatTimeout : Int) (former : Nat)
    (node : Option DevNode) (sessions : List PtyRow) : Control where
  nodeId := nodeId
  heartbeatTimeout := heartbeatTimeout
  node := node
  sessions := sessions
  active := none
  hostStats := none
  devenvStatus := none
  connection := fun i => ⟨0, none, if i < former then .closed else .absent⟩
  connections := former
  approving := 0
  expiring := []
  opening := []
  terminalStreams := []
  openedOver := fun _ => 0
  disconnects := fun _ => 0
  nextStream := 0
  insertions := 0
  rank := fun _ => 0

/-- The row of a node paired under key 1. -/
def pairedNode : DevNode where
  credentialKind := .ed25519
  publicKey := some 1
  pendingPublicKey := none
  protocolVersion := none
  bootId := none
  connectionId := none
  connectionState := .enrolled
  enrolledAt := some 0
  connectedAt := none
  lastHeartbeatAt := none
  nodeDisconnectedAt := none

/-- A control plane with a paired node. -/
def pairedControl : Control := .started 7 30 0 (some pairedNode) []

end Sulion.Node
