import Sulion.Lib.InFlight
import Sulion.Timeline.TurnStream

set_option autoImplicit false

/-! # What a stream's client holds

`Synced` says what a client has, in the middle of a sync or after it: every operation it holds
is as stored or older (`Tracks`), and its cursor tells which items and operations it has
(`Covers`). A commit keeps this, for it changes operations to versions behind the cursor of
the session, and so does a page of items or operations.

A value names its operation by the id of the pair, so all this needs that no two operations of
the turn share one (`DistinctPairs`).
-/

namespace Sulion.Timeline.Stream

open Sulion.Rust Table

/-- No two operations of the turn have the same pair id. -/
def DistinctPairs (db : Projection) (turn : Int) : Prop :=
  ((turnOperations db turn).map OpRow.pairId).Nodup

/-- An operation on the wire as it is stored. -/
def operationValue (jsonbText : Json → String) (db : Projection) (op : OpRow) : OperationValue :=
  { pair := (compactRow jsonbText op).pair
    fileTouches := db.touches[op.key]?.getD []
    bodyVersion := op.changedAt }

/-- A value is there under the pair id, of the given version or a newer one. -/
def Held (operations : Table String OperationValue) (pairId : String) (version : Int) : Prop :=
  ∃ value, operations[pairId]? = some value ∧ version ≤ value.bodyVersion

/-- The value is what is stored, or an older version of it. -/
def Tracks (jsonbText : Json → String) (db : Projection) (turn : Int) (value : OperationValue) :
    Prop :=
  ∃ op ∈ turnOperations db turn, op.pairId = value.pair.id ∧
    (value = operationValue jsonbText db op ∨ value.bodyVersion < op.changedAt)

/-- The rows of a query: operations as they are stored, or were when it ran. -/
structure RowsOf (db : Projection) (turn : Int) (rows : List OpRow) : Prop where
  distinct : (rows.map OpRow.pairId).Nodup
  stored : ∀ row ∈ rows, ∃ op ∈ turnOperations db turn, row.SameCall op ∧
    (row = op ∨ row.changedAt < op.changedAt)

/-- What the client has at the cursor. -/
structure Covers (db : Projection) (turn : Int) (client : Client) (cursor : Cursor) : Prop where
  turn_eq : cursor.turnId = turn
  since_ge : -1 ≤ cursor.since
  item_ge : cursor.since ≤ cursor.itemAfter
  operation_ge : -1 ≤ cursor.operationAfter
  since_le : cursor.since ≤ db.state.projectedThrough
  item_le : cursor.itemAfter ≤ db.state.projectedThrough
  through_mem : ∀ through ∈ cursor.through,
    cursor.since ≤ through ∧ through ≤ db.state.projectedThrough
  /-- Between two syncs. -/
  completed : cursor.through = none → cursor.operationAfter = -1 ∧ cursor.itemsDone = false
  items : ∀ (offset : Int) (chunk : TimelineChunk), (offset, chunk) ∈ turnItems db turn →
    offset ≤ cursor.itemAfter → client.items[offset]? = some (classifyBookkeeping chunk)
  items_done : cursor.itemsDone = true → ∀ through ∈ cursor.through,
    ∀ (offset : Int) (chunk : TimelineChunk), (offset, chunk) ∈ turnItems db turn →
      offset ≤ through → client.items[offset]? = some (classifyBookkeeping chunk)
  operations : ∀ op ∈ turnOperations db turn, op.changedAt ≤ cursor.since →
    Held client.operations op.pairId op.changedAt
  scanned : ∀ through ∈ cursor.through, ∀ op ∈ turnOperations db turn,
    op.changedAt ≤ through → ord op ≤ cursor.operationAfter →
      Held client.operations op.pairId op.changedAt

structure Synced (jsonbText : Json → String) (db : Projection) (turn : Int) (client : Client) :
    Prop where
  tracks : ∀ (pairId : String) (value : OperationValue), client.operations[pairId]? = some value →
    value.pair.id = pairId ∧ Tracks jsonbText db turn value
  covers : ∀ cursor, client.cursor = some cursor → Covers db turn client cursor

/-- The client has moved on: a later cursor, and no operation lost or set back. -/
def Client.Extends (client client' : Client) : Prop :=
  ∀ cursor, client.cursor = some cursor →
    (∃ cursor', client'.cursor = some cursor' ∧ cursor.since ≤ cursor'.since) ∧
      ∀ pairId version, Held client.operations pairId version →
        Held client'.operations pairId version

variable {jsonbText : Json → String} {db db' : Projection} {turn : Int} {client client' : Client}
  {cursor : Cursor} {op : OpRow} {lo hi : Int}

theorem Client.Extends.refl (client : Client) : client.Extends client :=
  fun cursor hcursor => ⟨⟨cursor, hcursor, le_rfl⟩, fun _ _ hheld => hheld⟩

theorem Client.Extends.trans {a b c : Client} (h : a.Extends b) (h' : b.Extends c) :
    a.Extends c := by
  intro cursor hcursor
  obtain ⟨⟨cursor', hcursor', hle⟩, hheld⟩ := h cursor hcursor
  obtain ⟨⟨cursor'', hcursor'', hle'⟩, hheld'⟩ := h' cursor' hcursor'
  refine ⟨⟨cursor'', hcursor'', hle.trans hle'⟩, ?_⟩
  intro pairId version hversion
  exact hheld' pairId version (hheld pairId version hversion)

/-! ## Merging operations -/

section Merge

variable {operations : Table String OperationValue} {pairId : String} {version : Int}
  {value value' : OperationValue} {values : List OperationValue}

theorem lookup_mergeOperation (h : (mergeOperation operations value)[pairId]? = some value') :
    operations[pairId]? = some value' ∨ value' = value ∧ pairId = value.pair.id := by
  unfold mergeOperation at h
  split at h
  · split at h
    · exact Or.inl h
    · rw [lookup_insert] at h
      split at h
      · rename_i heq
        cases h
        exact Or.inr ⟨rfl, heq.symm⟩
      · exact Or.inl h
  · rw [lookup_insert] at h
    split at h
    · rename_i heq
      cases h
      exact Or.inr ⟨rfl, heq.symm⟩
    · exact Or.inl h

/-- What is held stays held. -/
theorem Held.merge (h : Held operations pairId version) (value : OperationValue) :
    Held (mergeOperation operations value) pairId version := by
  obtain ⟨prior, hprior, hle⟩ := h
  by_cases heq : value.pair.id = pairId
  · subst heq
    unfold mergeOperation
    rw [hprior]
    dsimp only
    split
    · exact ⟨prior, hprior, hle⟩
    · rename_i hnew
      exact ⟨value, lookup_insert_self _ _ _, hle.trans (not_lt.mp hnew)⟩
  · refine ⟨prior, ?_, hle⟩
    unfold mergeOperation
    split
    · split
      · exact hprior
      · rw [lookup_insert_ne _ _ heq]
        exact hprior
    · rw [lookup_insert_ne _ _ heq]
      exact hprior

/-- What is merged is held. -/
theorem held_mergeOperation (operations : Table String OperationValue) (value : OperationValue) :
    Held (mergeOperation operations value) value.pair.id value.bodyVersion := by
  unfold mergeOperation
  split
  · rename_i prior hprior
    split
    · rename_i holder
      exact ⟨prior, hprior, holder.le⟩
    · exact ⟨value, lookup_insert_self _ _ _, le_rfl⟩
  · exact ⟨value, lookup_insert_self _ _ _, le_rfl⟩

theorem lookup_foldl_mergeOperation
    (h : (values.foldl mergeOperation operations)[pairId]? = some value') :
    operations[pairId]? = some value' ∨ value' ∈ values ∧ pairId = value'.pair.id := by
  induction values generalizing operations with
  | nil => exact Or.inl h
  | cons value values ih =>
      rcases ih h with hmerged | ⟨hmem, hid⟩
      · rcases lookup_mergeOperation hmerged with hprior | ⟨rfl, hid⟩
        · exact Or.inl hprior
        · exact Or.inr ⟨List.mem_cons_self, hid⟩
      · exact Or.inr ⟨List.mem_cons_of_mem _ hmem, hid⟩

theorem Held.foldl (h : Held operations pairId version) (values : List OperationValue) :
    Held (values.foldl mergeOperation operations) pairId version := by
  induction values generalizing operations with
  | nil => exact h
  | cons value values ih => exact ih (h.merge value)

theorem held_foldl (h : value ∈ values) :
    Held (values.foldl mergeOperation operations) value.pair.id value.bodyVersion := by
  induction values generalizing operations with
  | nil => cases h
  | cons first values ih =>
      rcases List.mem_cons.mp h with rfl | h
      · exact (held_mergeOperation operations value).foldl values
      · exact ih h

end Merge

/-! ## Commits -/

section Commit

theorem mem_turnOperations_iff (hkeyed : Keyed OpRow.key db.ops) :
    op ∈ turnOperations db turn ↔ db.ops[op.key]? = some op ∧ op.turnId = turn := by
  rw [mem_turnOperations, hkeyed.mem_rows]

/-- An operation that was not changed at an event of the batch is as it was. -/
theorem stored_before (hdb : Reached db) (hdb' : Reached db') (h : Between lo hi db db')
    (hop : op ∈ turnOperations db' turn) (hold : op.changedAt ≤ lo) :
    op ∈ turnOperations db turn := by
  obtain ⟨hrow, hturn⟩ := (mem_turnOperations_iff hdb'.consistent.ops.keyed).mp hop
  rcases h.ops op.key op hrow with ⟨hrow, -⟩ | ⟨hnew, -⟩
  · exact (mem_turnOperations_iff hdb.consistent.ops.keyed).mpr ⟨hrow, hturn⟩
  · omega

theorem item_before (h : Between lo hi db db') {offset : Int} {chunk : TimelineChunk}
    (hitem : (offset, chunk) ∈ turnItems db' turn) (hold : offset ≤ lo) :
    (offset, chunk) ∈ turnItems db turn := by
  rw [mem_turnItems] at hitem ⊢
  rcases h.items _ chunk hitem with hitem | ⟨hnew, -⟩
  · exact hitem
  · exact absurd hnew (not_lt.mpr hold)

/-- An operation is kept: as it was, with its file touches, or in a newer version. -/
theorem stored_after (hdb : Reached db) (hdb' : Reached db')
    (h : Between db.state.projectedThrough hi db db') (hop : op ∈ turnOperations db turn) :
    ∃ op' ∈ turnOperations db' turn, op.SameCall op' ∧
      ((op = op' ∧ db'.touches[op.key]? = db.touches[op.key]?) ∨ op.changedAt < op'.changedAt) := by
  obtain ⟨hrow, hturn⟩ := (mem_turnOperations_iff hdb.consistent.ops.keyed).mp hop
  obtain ⟨op', hrow', hsame⟩ := h.kept op.key op hrow
  have hmem' : op' ∈ turnOperations db' turn := by
    rw [mem_turnOperations_iff hdb'.consistent.ops.keyed, ← hsame.key_eq]
    exact ⟨hrow', hsame.1.symm.trans hturn⟩
  refine ⟨op', hmem', hsame, ?_⟩
  rcases h.ops op.key op' hrow' with ⟨hsame', htouches⟩ | ⟨hnew, -⟩
  · rw [hrow] at hsame'
    exact Or.inl ⟨Option.some.inj hsame', htouches⟩
  · have hle := (hdb.changedAt_mem (mem_turnOperations.mp hop).1).2
    exact Or.inr (hle.trans_lt hnew)

theorem DistinctPairs.eq_of_pairId (h : DistinctPairs db turn) {a b : OpRow}
    (ha : a ∈ turnOperations db turn) (hb : b ∈ turnOperations db turn)
    (hpair : a.pairId = b.pairId) : a = b :=
  List.inj_on_of_nodup_map h ha hb hpair

/-- A commit never takes a duplicate pair id away. -/
theorem DistinctPairs.before (hdb : Reached db) (hdb' : Reached db')
    (h : Between db.state.projectedThrough hi db db') (hdistinct : DistinctPairs db' turn) :
    DistinctPairs db turn := by
  have hkeyed := hdb.consistent.ops.keyed
  have hnodup : (turnOperations db turn).Nodup :=
    (sorted_turnOperations hkeyed turn).imp fun hlt heq => absurd (congrArg ord heq) hlt.ne
  refine List.Nodup.map_on ?_ hnodup
  intro a ha b hb hpair
  obtain ⟨a', ha', hsame, -⟩ := stored_after hdb hdb' h ha
  obtain ⟨b', hb', hsame', -⟩ := stored_after hdb hdb' h hb
  have heq : a' = b' := by
    apply hdistinct.eq_of_pairId ha' hb'
    rw [← hsame.2.2.1, ← hsame'.2.2.1, hpair]
  have hkey : a.key = b.key := by rw [hsame.key_eq, hsame'.key_eq, heq]
  obtain ⟨hrow, -⟩ := (mem_turnOperations_iff hkeyed).mp ha
  obtain ⟨hrow', -⟩ := (mem_turnOperations_iff hkeyed).mp hb
  rw [hkey, hrow'] at hrow
  exact (Option.some.inj hrow).symm

theorem Tracks.commit (hdb : Reached db) (hdb' : Reached db')
    (h : Between db.state.projectedThrough hi db db') {value : OperationValue}
    (htracks : Tracks jsonbText db turn value) : Tracks jsonbText db' turn value := by
  obtain ⟨op, hop, hpair, hvalue⟩ := htracks
  obtain ⟨op', hop', hsame, hchange⟩ := stored_after hdb hdb' h hop
  refine ⟨op', hop', hsame.2.2.1.symm.trans hpair, ?_⟩
  rcases hchange with ⟨rfl, htouches⟩ | hnew
  · rcases hvalue with rfl | hold
    · refine Or.inl ?_
      unfold operationValue
      rw [htouches]
    · exact Or.inr hold
  · refine Or.inr (lt_of_le_of_lt ?_ hnew)
    rcases hvalue with rfl | hold
    · exact le_rfl
    · exact hold.le

theorem RowsOf.commit (hdb : Reached db) (hdb' : Reached db')
    (h : Between db.state.projectedThrough hi db db') {rows : List OpRow}
    (hrows : RowsOf db turn rows) : RowsOf db' turn rows where
  distinct := hrows.distinct
  stored := by
    intro row hrow
    obtain ⟨op, hop, hsame, hversion⟩ := hrows.stored row hrow
    obtain ⟨op', hop', hsame', hchange⟩ := stored_after hdb hdb' h hop
    refine ⟨op', hop', hsame.trans hsame', ?_⟩
    rcases hchange with ⟨rfl, -⟩ | hnew
    · exact hversion
    · refine Or.inr (lt_of_le_of_lt ?_ hnew)
      rcases hversion with rfl | hold
      · exact le_rfl
      · exact hold.le

/-- **A commit keeps what a cursor says**: what it adds and changes lies behind the cursor. -/
theorem Covers.commit (hdb : Reached db) (hdb' : Reached db')
    (h : Between db.state.projectedThrough hi db db') (hcovers : Covers db turn client cursor) :
    Covers db' turn client cursor where
  turn_eq := hcovers.turn_eq
  since_ge := hcovers.since_ge
  item_ge := hcovers.item_ge
  operation_ge := hcovers.operation_ge
  since_le := hcovers.since_le.trans h.through
  item_le := hcovers.item_le.trans h.through
  through_mem := by
    intro through hthrough
    obtain ⟨hlow, hhigh⟩ := hcovers.through_mem through hthrough
    exact ⟨hlow, hhigh.trans h.through⟩
  completed := hcovers.completed
  items := by
    intro offset chunk hitem hle
    exact hcovers.items offset chunk (item_before h hitem (hle.trans hcovers.item_le)) hle
  items_done := by
    intro hdone through hthrough offset chunk hitem hle
    have hhigh := (hcovers.through_mem through hthrough).2
    exact hcovers.items_done hdone through hthrough offset chunk
      (item_before h hitem (hle.trans hhigh)) hle
  operations := by
    intro op hop hle
    exact hcovers.operations op (stored_before hdb hdb' h hop (hle.trans hcovers.since_le)) hle
  scanned := by
    intro through hthrough op hop hle hord
    have hhigh := (hcovers.through_mem through hthrough).2
    exact hcovers.scanned through hthrough op
      (stored_before hdb hdb' h hop (hle.trans hhigh)) hle hord

theorem Synced.commit (hdb : Reached db) (hdb' : Reached db')
    (h : Between db.state.projectedThrough hi db db') (hsynced : Synced jsonbText db turn client) :
    Synced jsonbText db' turn client where
  tracks := by
    intro pairId value hvalue
    obtain ⟨hid, htracks⟩ := hsynced.tracks pairId value hvalue
    exact ⟨hid, htracks.commit hdb hdb' h⟩
  covers := fun cursor hcursor => (hsynced.covers cursor hcursor).commit hdb hdb' h

end Commit

/-! ## Records -/

section Records

variable {rows : List OpRow} {startOver : Bool} {through : Int}
  {items : List (Int × TimelineChunk)} {values : List OperationValue}

/-- A batch whose cursor does not go back. -/
theorem extends_batch {before : Cursor} (cursor : Cursor) (hcursor : client.cursor = some before)
    (hsince : before.since = cursor.since) (items : List (Int × TimelineChunk))
    (values : List OperationValue) :
    client.Extends (client.receive (.batch items values cursor)) := by
  intro before' hcursor'
  rw [hcursor] at hcursor'
  cases hcursor'
  exact ⟨⟨cursor, rfl, hsince.le⟩, fun _ _ hheld => hheld.foldl values⟩

theorem version_of_distinct (hrows : RowsOf db turn rows) {row : OpRow} (hrow : row ∈ rows) :
    version rows row.pairId = row.changedAt := by
  unfold version
  cases hfound : rows.reverse.find? fun op => op.pairId = row.pairId with
  | none =>
      have := List.find?_eq_none.mp hfound row (List.mem_reverse.mpr hrow)
      simp at this
  | some found =>
      have hmem : found ∈ rows := List.mem_reverse.mp (List.mem_of_find?_eq_some hfound)
      have hpair : found.pairId = row.pairId := by simpa using List.find?_some hfound
      rw [List.inj_on_of_nodup_map hrows.distinct hmem hrow hpair]
      rfl

/-- The values of a query name its rows, each with its version. -/
theorem mem_operationValues (hrows : RowsOf db turn rows) {value : OperationValue}
    (h : value ∈ operationValues jsonbText db rows) :
    ∃ row ∈ rows, value.pair.id = row.pairId ∧ value = operationValue jsonbText db row := by
  obtain ⟨row, hrow, rfl⟩ := List.mem_map.mp h
  refine ⟨row, hrow, rfl, ?_⟩
  unfold operationValue
  rw [version_of_distinct hrows hrow]

/-- What a query read is held once its batch is received. -/
theorem held_of_mem_rows (hrows : RowsOf db turn rows) {row : OpRow} (hrow : row ∈ rows)
    (operations : Table String OperationValue) :
    Held ((operationValues jsonbText db rows).foldl mergeOperation operations) row.pairId
      row.changedAt := by
  have hvalue : operationValue jsonbText db row ∈ operationValues jsonbText db rows := by
    refine List.mem_map.mpr ⟨row, hrow, ?_⟩
    unfold operationValue
    rw [version_of_distinct hrows hrow]
  exact held_foldl hvalue

/-- The values of a query track the operations. -/
theorem tracks_of_mem (hrows : RowsOf db turn rows) {value : OperationValue}
    (h : value ∈ operationValues jsonbText db rows) : Tracks jsonbText db turn value := by
  obtain ⟨row, hrow, hid, rfl⟩ := mem_operationValues hrows h
  obtain ⟨op, hop, hsame, hversion⟩ := hrows.stored row hrow
  refine ⟨op, hop, hsame.2.2.1.symm.trans hid.symm, ?_⟩
  rcases hversion with rfl | hold
  · exact Or.inl rfl
  · exact Or.inr hold

/-- What a cursor says stays true of a client that has more. -/
theorem Covers.of_held (h : Covers db turn client cursor) (hitems : client'.items = client.items)
    (hheld : ∀ pairId version, Held client.operations pairId version →
      Held client'.operations pairId version) : Covers db turn client' cursor :=
  { h with
    items := by
      rw [hitems]
      exact h.items
    items_done := by
      rw [hitems]
      exact h.items_done
    operations := fun op hop hle => hheld _ _ (h.operations op hop hle)
    scanned := fun through hthrough op hop hle hord =>
      hheld _ _ (h.scanned through hthrough op hop hle hord) }

/-- **The operations of a batch.** -/
theorem Synced.withOperations
    (h : Synced jsonbText db turn (client.receive (.batch items [] cursor)))
    (hrows : RowsOf db turn rows) :
    Synced jsonbText db turn
      (client.receive (.batch items (operationValues jsonbText db rows) cursor)) where
  tracks := by
    intro pairId value hvalue
    rcases lookup_foldl_mergeOperation hvalue with hprior | ⟨hmem, hid⟩
    · exact h.tracks pairId value hprior
    · exact ⟨hid.symm, tracks_of_mem hrows hmem⟩
  covers := by
    intro cursor' hcursor'
    exact (h.covers cursor' hcursor').of_held rfl fun _ _ hheld => hheld.foldl _

/-- A client with a cursor goes on there. -/
theorem beginCursor_some {previous : Cursor} (hcovers : Covers db turn client previous)
    (hbegin : beginCursor db turn (some previous) = some (cursor, startOver)) :
    cursor = { previous with
      through := some (previous.through.getD db.state.projectedThrough) } ∧ startOver = false := by
  have hkeep : (decide (previous.turnId ≠ turn) ||
      decide (db.state.projectedThrough < previous.since)) = false := by
    rw [hcovers.turn_eq, decide_eq_false (not_lt.mpr hcovers.since_le)]
    simp
  unfold beginCursor at hbegin
  simp only [Option.all_some, hkeep, Bool.not_false, Option.filter_some, if_true,
    Option.getD_some, Option.ite_none_right_eq_some, Option.some.injEq, Prod.mk.injEq] at hbegin
  obtain ⟨-, rfl, rfl⟩ := hbegin
  exact ⟨rfl, rfl⟩

/-- **The header of a sync**: a first one, or one that goes on at the client's cursor. -/
theorem Synced.header (hdb : Reached db) (h : Synced jsonbText db turn client)
    (hbegin : beginCursor db turn client.cursor = some (cursor, startOver)) :
    Synced jsonbText db turn (client.receive (.header cursor startOver)) ∧
      client.Extends (client.receive (.header cursor startOver)) ∧
        cursor.through.isSome = true := by
  have hge : -1 ≤ db.state.projectedThrough := hdb.between_empty.through
  cases hprevious : client.cursor with
  | none =>
      -- nothing is stored at or before -1
      rw [hprevious] at hbegin
      unfold beginCursor at hbegin
      simp only [Option.all_none, Bool.not_true, Option.filter_none, Option.getD_none,
        Option.ite_none_right_eq_some, Option.some.injEq, Prod.mk.injEq] at hbegin
      obtain ⟨-, rfl, rfl⟩ := hbegin
      refine ⟨⟨fun pairId value hvalue => ?_, fun cursor' hcursor' => ?_⟩, ?_, rfl⟩
      · simp [Client.receive] at hvalue
      · cases hcursor'
        refine
          { turn_eq := rfl, since_ge := le_rfl, item_ge := le_rfl, operation_ge := le_rfl,
            since_le := hge, item_le := hge, through_mem := ?_, completed := ?_, items := ?_,
            items_done := ?_, operations := ?_, scanned := ?_ }
        · rintro through ⟨⟩
          exact ⟨hge, le_rfl⟩
        · intro hnone
          cases hnone
        · intro offset chunk hitem hle
          have hlow := (hdb.offset_mem (mem_turnItems.mp hitem)).1
          dsimp only at hle hlow
          omega
        · intro hdone
          cases hdone
        · intro op hop hle
          have hlow := (hdb.changedAt_mem (mem_turnOperations.mp hop).1).1
          dsimp only at hle
          omega
        · intro through hthrough op hop hle hord
          unfold ord at hord
          dsimp only at hord
          omega
      · intro before hbefore
        rw [hprevious] at hbefore
        cases hbefore
  | some previous =>
      have hcovers := h.covers previous hprevious
      rw [hprevious] at hbegin
      obtain ⟨rfl, rfl⟩ := beginCursor_some hcovers hbegin
      refine ⟨⟨h.tracks, fun cursor' hcursor' => ?_⟩, ?_, rfl⟩
      · cases hcursor'
        cases hthrough : previous.through with
        | some through =>
            -- goes on where it was abandoned
            have hsame : { previous with
                through := some ((some through).getD db.state.projectedThrough) } = previous := by
              cases previous
              cases hthrough
              rfl
            rw [hsame]
            exact hcovers.of_held rfl fun _ _ hheld => hheld
        | none =>
            obtain ⟨hoperation, hdone⟩ := hcovers.completed hthrough
            refine
              { turn_eq := hcovers.turn_eq, since_ge := hcovers.since_ge,
                item_ge := hcovers.item_ge, operation_ge := hcovers.operation_ge,
                since_le := hcovers.since_le, item_le := hcovers.item_le, through_mem := ?_,
                completed := ?_, items := hcovers.items, items_done := ?_,
                operations := hcovers.operations, scanned := ?_ }
            · rintro through ⟨⟩
              exact ⟨hcovers.since_le, le_rfl⟩
            · intro hnone
              cases hnone
            · intro hdone'
              rw [hdone] at hdone'
              cases hdone'
            · intro through _ op _ _ hord
              dsimp only at hord
              rw [hoperation] at hord
              unfold ord at hord
              omega
      · intro before hbefore
        rw [hprevious] at hbefore
        cases hbefore
        exact ⟨⟨_, rfl, le_rfl⟩, fun _ _ hheld => hheld⟩

/-- The rows of a query are operations of the turn, no two with one pair id. -/
theorem RowsOf.of_sublist (hdistinct : DistinctPairs db turn)
    (h : rows.Sublist (turnOperations db turn)) : RowsOf db turn rows where
  distinct := hdistinct.sublist (h.map OpRow.pairId)
  stored := fun row hrow => ⟨row, h.subset hrow, .refl row, Or.inl rfl⟩

theorem rowsOf_operationRows (hdistinct : DistinctPairs db turn) (links : Finset ChildLink)
    (session : Uuid) (cursor : Cursor) (references : Option (List String)) :
    RowsOf db turn (operationRows db links session turn cursor references) := by
  apply RowsOf.of_sublist hdistinct
  cases references with
  | some ids => exact (List.take_sublist _ _).trans List.filter_sublist
  | none =>
      exact (List.take_sublist _ _).trans (List.filter_sublist.trans List.filter_sublist)

/-- An item that the client has, or gets on a page, it has afterwards. -/
theorem lookup_receive_items {page : List (Int × TimelineChunk)}
    (hpage : ∀ row ∈ page, row ∈ turnItems db turn)
    (hsorted : page.Pairwise fun a b => a.1 < b.1) {offset : Int} {chunk : TimelineChunk}
    (hitem : (offset, chunk) ∈ turnItems db turn)
    (h : client.items[offset]? = some (classifyBookkeeping chunk) ∨ (offset, chunk) ∈ page) :
    (mergeList (fun _ item => item) client.items
      (page.map fun row => (row.1, classifyBookkeeping row.2)))[offset]? =
        some (classifyBookkeeping chunk) := by
  by_cases hmem : (offset, chunk) ∈ page
  · have hdistinct : (page.map fun row => (row.1, classifyBookkeeping row.2)).Pairwise
        fun a b => a.1 ≠ b.1 := by
      rw [List.pairwise_map]
      exact hsorted.imp fun hlt => hlt.ne
    rw [lookup_mergeList_of_mem _ _ _ hdistinct (List.mem_map.mpr ⟨_, hmem, rfl⟩)]
    cases client.items[offset]? <;> rfl
  · rw [lookup_mergeList_of_not_mem]
    · exact h.resolve_right hmem
    · -- a page has no other item at the offset
      intro kr hkr hkey
      obtain ⟨row, hrow, rfl⟩ := List.mem_map.mp hkr
      obtain ⟨offset', chunk'⟩ := row
      have hkey : offset' = offset := hkey
      subst hkey
      have hlookup := mem_turnItems.mp (hpage _ hrow)
      rw [mem_turnItems.mp hitem] at hlookup
      cases hlookup
      exact hmem hrow

/-- **A page of items.** -/
theorem Synced.page (h : Synced jsonbText db turn client) (hcursor : client.cursor = some cursor)
    (hthrough : cursor.through = some through) :
    Synced jsonbText db turn (client.receive (.batch
      ((itemRows db turn cursor).map fun row => (row.1, classifyBookkeeping row.2)) []
      (cursor.afterItems (itemRows db turn cursor)))) := by
  have hcovers := h.covers cursor hcursor
  obtain ⟨hlow, hhigh⟩ := hcovers.through_mem through hthrough
  have hrows : itemRows db turn cursor = Paging.page Prod.fst batchSize cursor.itemAfter
      ((turnItems db turn).filter fun row => row.1 ≤ through) := by
    unfold itemRows
    rw [hthrough]
  have hsorted : ((turnItems db turn).filter fun row => decide (row.1 ≤ through)).Pairwise
      fun a b => a.1 < b.1 := (sorted_turnItems db turn).filter _
  have hpage : ∀ row ∈ itemRows db turn cursor, row ∈ turnItems db turn := by
    intro row hrow
    rw [hrows] at hrow
    exact List.mem_of_mem_filter (Paging.mem_of_mem_page hrow)
  have hpaged : (itemRows db turn cursor).Pairwise fun a b => a.1 < b.1 := by
    rw [hrows]
    exact Paging.pairwise_page hsorted
  -- a row up to the checkpoint is held, or on the page
  have hreach (offset : Int) (chunk : TimelineChunk) (hitem : (offset, chunk) ∈ turnItems db turn)
      (hle : offset ≤ through)
      (hend : offset ≤ Paging.lastKey Prod.fst cursor.itemAfter (itemRows db turn cursor) ∨
        (itemRows db turn cursor).length < batchSize) :
      client.items[offset]? = some (classifyBookkeeping chunk) ∨
        (offset, chunk) ∈ itemRows db turn cursor := by
    by_cases hbefore : offset ≤ cursor.itemAfter
    · exact Or.inl (hcovers.items offset chunk hitem hbefore)
    · refine Or.inr ?_
      rw [hrows] at hend ⊢
      exact Paging.mem_page hsorted (List.mem_filter.mpr ⟨hitem, decide_eq_true hle⟩)
        (not_le.mp hbefore) hend
  have hlast : Paging.lastKey Prod.fst cursor.itemAfter (itemRows db turn cursor) ≤
      max cursor.itemAfter through := by
    by_cases hempty : itemRows db turn cursor = []
    · rw [hempty]
      exact le_max_left _ _
    · obtain ⟨row, hrow, heq⟩ := Paging.exists_lastKey (f := Prod.fst) hempty cursor.itemAfter
      rw [heq]
      rw [hrows] at hrow
      have hle := (List.mem_filter.mp (Paging.mem_of_mem_page hrow)).2
      exact (of_decide_eq_true hle).trans (le_max_right _ _)
  have hmono : cursor.itemAfter ≤
      Paging.lastKey Prod.fst cursor.itemAfter (itemRows db turn cursor) := by
    rw [hrows]
    exact Paging.after_le_lastKey
  refine ⟨h.tracks, fun cursor' hcursor' => ?_⟩
  cases hcursor'
  refine
    { turn_eq := hcovers.turn_eq, since_ge := hcovers.since_ge,
      item_ge := hcovers.item_ge.trans hmono, operation_ge := hcovers.operation_ge,
      since_le := hcovers.since_le, item_le := hlast.trans (max_le hcovers.item_le hhigh),
      through_mem := hcovers.through_mem, completed := ?_, items := ?_, items_done := ?_,
      operations := hcovers.operations, scanned := hcovers.scanned }
  · intro hnone
    exact absurd (hthrough.symm.trans hnone) (by simp)
  · intro offset chunk hitem hle
    apply lookup_receive_items hpage hpaged hitem
    by_cases hbefore : offset ≤ cursor.itemAfter
    · exact Or.inl (hcovers.items offset chunk hitem hbefore)
    · refine hreach offset chunk hitem ?_ (Or.inl hle)
      have hle' := hle.trans hlast
      omega
  · intro hdone through' hthrough' offset chunk hitem hle
    cases hthrough.symm.trans hthrough'
    apply lookup_receive_items hpage hpaged hitem
    exact hreach offset chunk hitem hle (Or.inr (of_decide_eq_true hdone))

/-- The rows of a scan: those after the cursor's number and changed since, up to the last one
read. -/
def Scans (db : Projection) (turn : Int) (before : Cursor) (rows : List OpRow) : Prop :=
  ∀ through ∈ before.through, ∀ op ∈ turnOperations db turn, before.since < op.changedAt →
    op.changedAt ≤ through → before.operationAfter < ord op →
      (ord op ≤ Paging.lastKey ord before.operationAfter rows ∨ rows = []) → op ∈ rows

/-- A scan reads an operation behind its cursor, unless it ends before it. -/
theorem mem_operationRows_of_scan (hdb : Reached db) {links : Finset ChildLink} {session : Uuid}
    (hop : op ∈ turnOperations db turn) (hsince : cursor.since < op.changedAt)
    (hafter : cursor.operationAfter < ord op)
    (hreach : ord op ≤ Paging.lastKey ord cursor.operationAfter
        (operationRows db links session turn cursor none) ∨
      operationRows db links session turn cursor none = []) :
    op ∈ operationRows db links session turn cursor none := by
  have hsorted : ((turnOperations db turn).filter fun op =>
      decide (cursor.since < op.changedAt) || linked links session op).Pairwise
        fun a b => ord a < ord b := (sorted_turnOperations hdb.consistent.ops.keyed turn).filter _
  refine Paging.mem_page hsorted (List.mem_filter.mpr ⟨hop, ?_⟩) hafter ?_
  · rw [decide_eq_true hsince, Bool.true_or]
  · rcases hreach with hle | hempty
    · exact Or.inl hle
    · refine Or.inr ?_
      have hempty : Paging.page ord batchSize cursor.operationAfter ((turnOperations db turn).filter
          fun op => decide (cursor.since < op.changedAt) || linked links session op) = [] := hempty
      rw [hempty]
      exact Nat.zero_lt_succ _

theorem scans_operationRows (hdb : Reached db) (links : Finset ChildLink) (session : Uuid)
    (cursor : Cursor) : Scans db turn cursor (operationRows db links session turn cursor none) :=
  fun _ _ _ hop hsince _ hafter hreach => mem_operationRows_of_scan hdb hop hsince hafter hreach

/-- What changes after a scan lies behind its checkpoint. -/
theorem Scans.commit (hdb : Reached db) (hdb' : Reached db')
    (h : Between db.state.projectedThrough hi db db') (hcovers : Covers db turn client cursor)
    (hscans : Scans db turn cursor rows) : Scans db' turn cursor rows := by
  intro through hthrough op hop hsince hle hafter hreach
  have hhigh := (hcovers.through_mem through hthrough).2
  exact hscans through hthrough op (stored_before hdb hdb' h hop (hle.trans hhigh)) hsince hle
    hafter hreach

/-- **A page of operations.** -/
theorem Synced.scan (h : Synced jsonbText db turn client) (hcursor : client.cursor = some cursor)
    (hthrough : cursor.through = some through) (hrows : RowsOf db turn rows)
    (hscans : Scans db turn cursor rows)
    (hge : cursor.operationAfter ≤ Paging.lastKey ord cursor.operationAfter rows) :
    Synced jsonbText db turn (client.receive (.batch [] (operationValues jsonbText db rows)
      (cursor.afterOperations rows))) where
  tracks := by
    intro pairId value hvalue
    rcases lookup_foldl_mergeOperation hvalue with hprior | ⟨hmem, hid⟩
    · exact h.tracks pairId value hprior
    · exact ⟨hid.symm, tracks_of_mem hrows hmem⟩
  covers := by
    intro cursor' hcursor'
    have hcovers := h.covers cursor hcursor
    cases hcursor'
    refine
      { turn_eq := hcovers.turn_eq, since_ge := hcovers.since_ge, item_ge := hcovers.item_ge,
        operation_ge := hcovers.operation_ge.trans hge, since_le := hcovers.since_le,
        item_le := hcovers.item_le, through_mem := hcovers.through_mem, completed := ?_,
        items := hcovers.items, items_done := hcovers.items_done, operations := ?_,
        scanned := ?_ }
    · intro hnone
      exact absurd (hthrough.symm.trans hnone) (by simp)
    · intro op hop hle
      exact (hcovers.operations op hop hle).foldl _
    · intro through' hthrough' op hop hle hord
      by_cases hsince : op.changedAt ≤ cursor.since
      · exact (hcovers.operations op hop hsince).foldl _
      · by_cases hbefore : ord op ≤ cursor.operationAfter
        · exact (hcovers.scanned through' hthrough' op hop hle hbefore).foldl _
        · exact held_of_mem_rows hrows (hscans through' hthrough' op hop (not_le.mp hsince) hle
            (not_le.mp hbefore) (Or.inl hord)) _

/-- **The end of a sync**: the last scan read nothing. -/
theorem Synced.complete (h : Synced jsonbText db turn client)
    (hcursor : client.cursor = some cursor) (hdone : cursor.itemsDone = true)
    (hthrough : cursor.through = some through) (hscans : Scans db turn cursor []) :
    Synced jsonbText db turn (client.receive (.complete (cursor.completed through))) where
  tracks := h.tracks
  covers := by
    intro cursor' hcursor'
    have hcovers := h.covers cursor hcursor
    obtain ⟨hlow, hhigh⟩ := hcovers.through_mem through hthrough
    cases hcursor'
    refine
      { turn_eq := hcovers.turn_eq, since_ge := hcovers.since_ge.trans hlow, item_ge := le_rfl,
        operation_ge := le_rfl, since_le := hhigh, item_le := hhigh, through_mem := ?_,
        completed := fun _ => ⟨rfl, rfl⟩, items := hcovers.items_done hdone through hthrough,
        items_done := ?_, operations := ?_, scanned := ?_ }
    · rintro through' ⟨⟩
    · intro hdone'
      cases hdone'
    · intro op hop hle
      by_cases hsince : op.changedAt ≤ cursor.since
      · exact hcovers.operations op hop hsince
      · by_cases hbefore : ord op ≤ cursor.operationAfter
        · exact hcovers.scanned through hthrough op hop hle hbefore
        · have hmem := hscans through hthrough op hop (not_le.mp hsince) hle (not_le.mp hbefore)
            (Or.inr rfl)
          cases hmem
    · rintro through' ⟨⟩

end Records

end Sulion.Timeline.Stream
