import Sulion.Pty.Records

set_option autoImplicit false

/-! # The node store

The row of a node in `dev_nodes` and the statements of `node_protocol/store.rs` on it and on the
session rows of the node. An `UPDATE … WHERE` that matches no row is `none`. A public key is a
number, a connection id the number of the handshake it was generated for.
-/

namespace Sulion.Node

open Pty

/-- An Ed25519 public key. -/
abbrev PublicKey := Nat

abbrev ConnectionId := Nat

inductive CredentialKind
  | ed25519
  | internal
  deriving DecidableEq, Repr

inductive ConnectionState
  | pending
  | enrolled
  | connected
  | disconnected
  deriving DecidableEq, Repr

structure DevNode where
  credentialKind : CredentialKind
  publicKey : Option PublicKey
  pendingPublicKey : Option PublicKey
  protocolVersion : Option Nat
  bootId : Option Uuid
  connectionId : Option ConnectionId
  connectionState : ConnectionState
  enrolledAt : Option Timestamp
  connectedAt : Option Timestamp
  lastHeartbeatAt : Option Timestamp
  nodeDisconnectedAt : Option Timestamp
  deriving DecidableEq, Repr

/-! ## The node row -/

/-- `request_pairing`. -/
def requestPairing (node : Option DevNode) (key : PublicKey) : Option DevNode :=
  match node with
  | none =>
      some {
        credentialKind := .ed25519, publicKey := none, pendingPublicKey := some key,
        protocolVersion := none, bootId := none, connectionId := none,
        connectionState := .pending, enrolledAt := none, connectedAt := none,
        lastHeartbeatAt := none, nodeDisconnectedAt := none }
  | some row =>
      if row.credentialKind = .ed25519 ∧ row.pendingPublicKey ≠ some key then
        some { row with
          pendingPublicKey := some key,
          connectionState := if row.publicKey = none then .pending else row.connectionState }
      else some row

/-- `ensure_internal_node`; `none` when the id belongs to the remote node. -/
def ensureInternalNode (node : Option DevNode) (now : Timestamp) : Option DevNode :=
  match node with
  | none =>
      some {
        credentialKind := .internal, publicKey := none, pendingPublicKey := none,
        protocolVersion := none, bootId := none, connectionId := none,
        connectionState := .enrolled, enrolledAt := some now, connectedAt := none,
        lastHeartbeatAt := none, nodeDisconnectedAt := none }
  | some row => if row.credentialKind = .internal then some row else none

namespace DevNode

/-- The update of `approve_pairing`. -/
def approvePairing (row : DevNode) (now : Timestamp) : Option DevNode :=
  if row.credentialKind = .ed25519 ∧ row.pendingPublicKey ≠ none then
    some { row with
      publicKey := row.pendingPublicKey, pendingPublicKey := none, connectionId := none,
      connectionState := .enrolled, enrolledAt := some now, nodeDisconnectedAt := some now }
  else none

/-- `record_connection`. -/
def recordConnection (row : DevNode) (protocolVersion : Nat) (boot : Uuid)
    (connection : ConnectionId) (now : Timestamp) : DevNode :=
  { row with
    protocolVersion := some protocolVersion, bootId := some boot,
    connectionId := some connection, connectionState := .connected, connectedAt := some now,
    lastHeartbeatAt := some now, nodeDisconnectedAt := none }

/-- The condition `boot_id = $2 AND connection_id = $3`. -/
def isOf (row : DevNode) (boot : Uuid) (connection : ConnectionId) : Bool :=
  row.bootId = some boot && row.connectionId = some connection

/-- The update of `heartbeat`. -/
def heartbeat (row : DevNode) (boot : Uuid) (connection : ConnectionId) (now : Timestamp) :
    Option DevNode :=
  if row.isOf boot connection then
    some { row with
      lastHeartbeatAt := some now, connectionState := .connected, nodeDisconnectedAt := none }
  else none

/-- The update of `disconnect`, and of `expire_heartbeats`. -/
def disconnect (row : DevNode) (boot : Uuid) (connection : ConnectionId) (now : Timestamp) :
    Option DevNode :=
  if row.isOf boot connection then
    some { row with
      connectionState := .disconnected, connectionId := none, nodeDisconnectedAt := some now }
  else none

/-- What `expire_heartbeats` selects: the connection of a row without a recent heartbeat. -/
def expired (row : DevNode) (cutoff : Timestamp) : Option (Uuid × ConnectionId) :=
  match row.bootId, row.connectionId, row.lastHeartbeatAt with
  | some boot, some connection, some beat =>
      if row.connectionState = .connected ∧ beat < cutoff then some (boot, connection) else none
  | _, _, _ => none

end DevNode

/-! ## The session rows of the node -/

/-- `UPDATE pty_sessions … WHERE node_id = $1 AND state = 'live' AND …`. -/
def updateLive (nodeId : Uuid) (p : PtyRow → Bool) (f : PtyRow → PtyRow) (rows : List PtyRow) :
    List PtyRow :=
  rows.map fun row =>
    if row.nodeId = some nodeId ∧ row.state = .live ∧ p row then f row else row

/-- `node_disconnected_at = COALESCE(node_disconnected_at, now)`. -/
def noteDisconnected (now : Timestamp) (row : PtyRow) : PtyRow :=
  { row with nodeDisconnectedAt := some (row.nodeDisconnectedAt.getD now) }

/-- `mark_sessions_disconnected`. -/
def markSessionsDisconnected (nodeId : Uuid) (now : Timestamp) : List PtyRow → List PtyRow :=
  updateLive nodeId (fun _ => true) (noteDisconnected now)

/-- The session statement of `disconnect` and of `expire_heartbeats`. -/
def disconnectSessions (nodeId boot : Uuid) (now : Timestamp) : List PtyRow → List PtyRow :=
  updateLive nodeId (fun row => row.nodeBootId = some boot) (noteDisconnected now)

/-- The adoption of `heartbeat`: a session of an earlier boot that the node still hosts moves to
the current boot. -/
def adoptSessions (nodeId boot : Uuid) (liveSessionIds : List Uuid) : List PtyRow → List PtyRow :=
  updateLive nodeId (fun row => row.id ∈ liveSessionIds && row.nodeBootId ≠ some boot)
    fun row => { row with nodeBootId := some boot, nodeDisconnectedAt := none }

/-- The second statement of `heartbeat`. -/
def reconnectSessions (nodeId boot : Uuid) (liveSessionIds : List Uuid) :
    List PtyRow → List PtyRow :=
  updateLive nodeId
    (fun row => row.nodeBootId = some boot && row.id ∈ liveSessionIds &&
      row.nodeDisconnectedAt.isSome)
    fun row => { row with nodeDisconnectedAt := none }

/-- `reconcile_missing_sessions`. -/
def reconcileMissingSessions (nodeId : Uuid) (liveSessionIds : List Uuid) (now : Timestamp) :
    List PtyRow → List PtyRow :=
  updateLive nodeId (fun row => row.id ∉ liveSessionIds) fun row => { row with
    state := .orphaned, endedAt := some (row.endedAt.getD now),
    runtimeEndReason := some "node_inventory_missing", nodeDisconnectedAt := none }

/-- The session statements of `heartbeat`. -/
def heartbeatSessions (nodeId boot : Uuid) (liveSessionIds : List Uuid)
    (inventoryComplete : Bool) (now : Timestamp) (rows : List PtyRow) : List PtyRow :=
  let rows :=
    if liveSessionIds.isEmpty then rows
    else reconnectSessions nodeId boot liveSessionIds
      (adoptSessions nodeId boot liveSessionIds rows)
  if inventoryComplete then reconcileMissingSessions nodeId liveSessionIds now rows else rows

end Sulion.Node
