import Sulion.Basic

set_option autoImplicit false

/-! # Session records

A row of `pty_sessions`, and the statements with which `pty/mod.rs` and `pty/spawn.rs` change
its lifecycle columns. Each of them guards on the state it finds.
-/

namespace Sulion.Pty

/-- `PtyState`. -/
inductive PtyState
  | live
  | dead
  | deleted
  /-- The process was lost without a supervised exit. -/
  | orphaned
  deriving DecidableEq, Repr

/-- The lifecycle columns of a `pty_sessions` row. -/
structure PtyRow where
  id : Uuid
  nodeId : Option Uuid
  nodeBootId : Option Uuid
  state : PtyState
  createdAt : Timestamp
  endedAt : Option Timestamp
  exitCode : Option Int
  runtimeEndReason : Option String
  nodeDisconnectedAt : Option Timestamp
  devenvIdent : Option String
  deriving DecidableEq, Repr

namespace PtyRow

/-- `persist_spawn`: insert the row, or take over one that is not live. `none` when the session
already has a live record. -/
def persistSpawn (old : Option PtyRow) (id : Uuid) (nodeId nodeBootId : Option Uuid)
    (now : Timestamp) : Option PtyRow :=
  match old with
  | some row =>
      if row.state ≠ .live then
        some { row with
          nodeId := nodeId, nodeBootId := nodeBootId, state := .live, endedAt := none,
          exitCode := none, runtimeEndReason := none, nodeDisconnectedAt := none }
      else none
  | none =>
      some {
        id := id, nodeId := nodeId, nodeBootId := nodeBootId, state := .live, createdAt := now,
        endedAt := none, exitCode := none, runtimeEndReason := none,
        nodeDisconnectedAt := none, devenvIdent := none }

/-- The statement of `mark_dead`. -/
def markDead (row : PtyRow) (exitCode : Option Int) (now : Timestamp) : PtyRow :=
  if row.state = .live then
    { row with state := .dead, endedAt := some now, exitCode := exitCode }
  else row

/-- The statement of `mark_orphaned`. -/
def markOrphaned (row : PtyRow) (now : Timestamp) : PtyRow :=
  if row.state = .live then
    { row with
      state := .orphaned, endedAt := some now,
      runtimeEndReason := some "devenv_inventory_missing" }
  else row

/-- `abandon_unspawned_row`. -/
def abandonUnspawned (row : PtyRow) (now : Timestamp) : PtyRow :=
  if row.state = .live then { row with state := .deleted, endedAt := some now } else row

/-- The statement of `delete`. -/
def delete (row : PtyRow) (now : Timestamp) : PtyRow :=
  { row with state := .deleted, endedAt := some (row.endedAt.getD now) }

variable (row : PtyRow) (now : Timestamp) (code : Option Int)

/-! Every end keeps the id, and what has ended is not live. -/

theorem markDead_ended :
    (row.markDead code now).id = row.id ∧ (row.markDead code now).state ≠ .live := by
  unfold markDead
  split
  · exact ⟨rfl, PtyState.noConfusion⟩
  · rename_i hended
    exact ⟨rfl, hended⟩

theorem markOrphaned_ended : (row.markOrphaned now).id = row.id ∧
    (row.markOrphaned now).state ≠ .live := by
  unfold markOrphaned
  split
  · exact ⟨rfl, PtyState.noConfusion⟩
  · rename_i hended
    exact ⟨rfl, hended⟩

theorem abandonUnspawned_ended : (row.abandonUnspawned now).id = row.id ∧
    (row.abandonUnspawned now).state ≠ .live := by
  unfold abandonUnspawned
  split
  · exact ⟨rfl, PtyState.noConfusion⟩
  · rename_i hended
    exact ⟨rfl, hended⟩

theorem delete_ended : (row.delete now).id = row.id ∧ (row.delete now).state ≠ .live :=
  ⟨rfl, PtyState.noConfusion⟩

theorem persistSpawn_live {old : Option PtyRow} {id : Uuid} {nodeId nodeBootId : Option Uuid}
    {row : PtyRow} (h : persistSpawn old id nodeId nodeBootId now = some row) :
    row.state = .live := by
  unfold persistSpawn at h
  split at h
  · split at h
    · cases h
      rfl
    · cases h
  · cases h
    rfl

end PtyRow

end Sulion.Pty
