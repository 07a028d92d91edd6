import Sulion.Timeline.StreamClient

set_option autoImplicit false

/-! # A complete sync is complete

The invariant of the turn stream holds of the client with any number of the records in flight
(`SyncInv`), so a stream may be abandoned anywhere. A second invariant follows one stale
operation through the sync after (`Awaiting`). `turn_stream_complete` puts them together for a
turn whose operations have different pair ids; where two share one, the client keeps only one
of them (`turn_stream_duplicate`).
-/

namespace Sulion.Timeline.Stream

open Sulion.Rust Sulion.Transition Sulion.InFlight Table

variable {jsonbText : Json → String} {session : Uuid} {turn : Int} {s s' : State}
  {db db' : Projection} {client : Client} {hi : Int}

/-- The client once everything in flight is received. -/
def State.delivered (s : State) : Client := s.inFlight.foldl Client.receive s.client

/-- What a record that is being read for would leave the client with. -/
def Stage.Next (P : Client → Prop) (client : Client) : Stage → Prop
  | .opening cursor startOver => P (client.receive (.header cursor startOver))
  | .items cursor page _ => P (client.receive (.batch page [] cursor))
  | .referenced cursor page _ => P (client.receive (.batch page [] cursor))
  | _ => True

/-- The stream's own cursor and what its queries have read. -/
def Stage.Reads (db : Projection) (turn : Int) (client : Client) : Stage → Prop
  | .idle => True
  | .opening cursor _ => cursor.through.isSome = true
  | .ready cursor => client.cursor = some cursor ∧ cursor.through.isSome = true
  | .items cursor _ _ => cursor.through.isSome = true
  | .referenced cursor _ rows => cursor.through.isSome = true ∧ RowsOf db turn rows
  | .scanned cursor rows => ∃ before, client.cursor = some before ∧ before.itemsDone = true ∧
      before.through.isSome = true ∧ cursor = before.afterOperations rows ∧
      before.operationAfter ≤ cursor.operationAfter ∧ RowsOf db turn rows ∧
      Scans db turn before rows

/-- The client is synced, and only moves forward, whatever arrives. -/
structure SyncInv (jsonbText : Json → String) (turn : Int) (s : State) : Prop where
  synced : Throughout Client.receive (Synced jsonbText s.db turn) s.client s.inFlight
  steady : Steady Client.receive Client.Extends s.client s.inFlight
  next : s.stage.Next (fun next => Synced jsonbText s.db turn next ∧ s.delivered.Extends next)
    s.delivered
  reads : s.stage.Reads s.db turn s.delivered

theorem Stage.Next.imp {P Q : Client → Prop} (hPQ : ∀ next, P next → Q next) {stage : Stage}
    (h : stage.Next P client) : stage.Next Q client := by
  cases stage with
  | opening cursor startOver => exact hPQ _ h
  | items cursor items references => exact hPQ _ h
  | referenced cursor items rows => exact hPQ _ h
  | idle => trivial
  | ready cursor => trivial
  | scanned cursor rows => trivial

theorem delivered_send (record : Record) (stage : Stage) :
    (s.send record stage).delivered = s.delivered.receive record := by
  show (s.inFlight ++ [record]).foldl Client.receive s.client = s.delivered.receive record
  rw [List.foldl_append]
  rfl

/-! ## One step -/

namespace SyncInv

theorem start : SyncInv jsonbText turn {} where
  synced := Throughout.of_now
    { tracks := fun pairId value hvalue => by simp at hvalue
      covers := fun cursor hcursor => by cases hcursor }
  steady := Steady.of_now (Client.Extends.refl _)
  next := trivial
  reads := trivial

/-- Sending a record after which the stream goes on at the client's cursor, or ends. -/
theorem send (h : SyncInv jsonbText turn s) {record : Record} {stage : Stage}
    (hsynced : Synced jsonbText s.db turn (s.delivered.receive record))
    (hextends : s.delivered.Extends (s.delivered.receive record))
    (hstage : stage = .idle ∨ ∃ cursor, stage = .ready cursor ∧
      (s.delivered.receive record).cursor = some cursor ∧ cursor.through.isSome = true) :
    SyncInv jsonbText turn (s.send record stage) where
  synced := h.synced.send hsynced
  steady := h.steady.send Client.Extends.refl (fun _ _ _ => Client.Extends.trans) hextends
  next := by
    rcases hstage with rfl | ⟨cursor, rfl, -⟩
    · trivial
    · trivial
  reads := by
    rw [delivered_send]
    rcases hstage with rfl | ⟨cursor, rfl, hcursor, hthrough⟩
    · trivial
    · exact ⟨hcursor, hthrough⟩

/-- Another stage, with the records and tables as they are. -/
theorem move (h : SyncInv jsonbText turn s) {stage : Stage}
    (hnext : stage.Next (fun next => Synced jsonbText s.db turn next ∧ s.delivered.Extends next)
      s.delivered)
    (hreads : stage.Reads s.db turn s.delivered) :
    SyncInv jsonbText turn { s with stage := stage } where
  synced := h.synced
  steady := h.steady
  next := hnext
  reads := hreads

theorem commit (hdb : Reached s.db) (hdb' : Reached db')
    (hbetween : Between s.db.state.projectedThrough hi s.db db')
    (h : SyncInv jsonbText turn s) : SyncInv jsonbText turn { s with db := db' } where
  synced := h.synced.imp fun _ hsynced => hsynced.commit hdb hdb' hbetween
  steady := h.steady
  next := h.next.imp fun _ hnext => ⟨hnext.1.commit hdb hdb' hbetween, hnext.2⟩
  reads := by
    have hreads := h.reads
    have hsynced := h.synced.last
    show s.stage.Reads db' turn s.delivered
    cases hstage : s.stage with
    | idle => trivial
    | opening cursor startOver =>
        rw [hstage] at hreads
        exact hreads
    | ready cursor =>
        rw [hstage] at hreads
        exact hreads
    | items cursor items references =>
        rw [hstage] at hreads
        exact hreads
    | referenced cursor items rows =>
        rw [hstage] at hreads
        exact ⟨hreads.1, hreads.2.commit hdb hdb' hbetween⟩
    | scanned cursor rows =>
        rw [hstage] at hreads
        obtain ⟨before, hcursor, hdone, hthrough, heq, hle, hrows, hscans⟩ := hreads
        exact ⟨before, hcursor, hdone, hthrough, heq, hle, hrows.commit hdb hdb' hbetween,
          hscans.commit hdb hdb' hbetween (hsynced.covers before hcursor)⟩

/-- The next query of the stream. -/
theorem read (hdb : Reached s.db) (hdistinct : DistinctPairs s.db turn)
    (h : SyncInv jsonbText turn s) (hread : Stream.read jsonbText session turn s = some s') :
    SyncInv jsonbText turn s' := by
  have hsynced : Synced jsonbText s.db turn s.delivered := h.synced.last
  have hnext := h.next
  have hreads := h.reads
  unfold Stream.read at hread
  cases hstage : s.stage with
  | idle =>
      rw [hstage] at hread
      cases hread
  | opening cursor startOver =>
      rw [hstage] at hread hnext hreads
      dsimp only at hread
      split at hread
      · cases hread
        refine h.send hnext.1 hnext.2 (Or.inr ⟨cursor, rfl, ?_, hreads⟩)
        cases startOver <;> rfl
      · cases hread
        exact h.move trivial trivial
  | ready cursor =>
      rw [hstage] at hread hreads
      obtain ⟨hcursor, hsome⟩ := hreads
      obtain ⟨through, hthrough⟩ := Option.isSome_iff_exists.mp hsome
      have hcovers := hsynced.covers cursor hcursor
      dsimp only at hread
      rw [if_neg (not_not.mpr hcovers.turn_eq)] at hread
      by_cases hdone : cursor.itemsDone = true
      · rw [if_pos hdone] at hread
        cases hread
        apply h.move
        · trivial
        · exact ⟨cursor, hcursor, hdone, hsome, rfl, Paging.after_le_lastKey,
            rowsOf_operationRows hdistinct _ _ _ _, scans_operationRows hdb _ _ _⟩
      · rw [if_neg hdone] at hread
        have hpage := hsynced.page hcursor hthrough
        have hextends (page : List (Int × TimelineChunk)) (values : List OperationValue) :
            s.delivered.Extends (s.delivered.receive
              (.batch page values (cursor.afterItems (itemRows s.db turn cursor)))) :=
          extends_batch (cursor.afterItems (itemRows s.db turn cursor)) hcursor rfl page values
        split at hread
        · cases hread
          exact h.send hpage (hextends _ _) (Or.inr ⟨_, rfl, rfl, hsome⟩)
        · cases hread
          apply h.move
          · exact ⟨hpage, hextends _ _⟩
          · exact hsome
  | items cursor items references =>
      rw [hstage] at hread hnext hreads
      cases hread
      apply h.move
      · exact hnext
      · exact ⟨hreads, rowsOf_operationRows hdistinct _ _ _ _⟩
  | referenced cursor items rows =>
      rw [hstage] at hread hnext hreads
      cases hread
      refine h.send (hnext.1.withOperations hreads.2) ?_ (Or.inr ⟨cursor, rfl, rfl, hreads.1⟩)
      apply hnext.2.trans
      intro cursor' hcursor'
      exact ⟨⟨cursor', hcursor', le_rfl⟩, fun _ _ hheld => hheld.foldl _⟩
  | scanned cursor rows =>
      rw [hstage] at hread hreads
      obtain ⟨before, hcursor, hdone, hsome, rfl, hle, hrows, hscans⟩ := hreads
      obtain ⟨through, hthrough⟩ := Option.isSome_iff_exists.mp hsome
      have hthrough' : (before.afterOperations rows).through = some through := hthrough
      dsimp only at hread
      cases hrows' : rows with
      | nil =>
          subst hrows'
          rw [List.isEmpty_nil, if_pos rfl, hthrough'] at hread
          cases hread
          refine h.send (hsynced.complete hcursor hdone hthrough hscans) ?_ (Or.inl rfl)
          intro cursor' hcursor'
          rw [hcursor] at hcursor'
          cases hcursor'
          have hlow := ((hsynced.covers before hcursor).through_mem through hthrough).1
          exact ⟨⟨_, rfl, hlow⟩, fun _ _ hheld => hheld⟩
      | cons row rest =>
          rw [if_neg (by rw [hrows']; simp)] at hread
          cases hread
          have hextends : s.delivered.Extends (s.delivered.receive (.batch []
              (operationValues jsonbText s.db rows) (before.afterOperations rows))) :=
            extends_batch (before.afterOperations rows) hcursor rfl _ _
          exact h.send (hsynced.scan hcursor hthrough hrows hscans hle) hextends
            (Or.inr ⟨_, rfl, rfl, hsome⟩)

end SyncInv

/-- The tables are reached, and while pair ids are distinct the stream's invariant holds. -/
def Inv (jsonbText : Json → String) (turn : Int) (s : State) : Prop :=
  Reached s.db ∧ (DistinctPairs s.db turn → SyncInv jsonbText turn s)

/-- **One step keeps the invariant**, takes no duplicate away and never sets the client back. -/
theorem step_inv {action : Action} (h : Inv jsonbText turn s)
    (hstep : step jsonbText session turn s action = some s') :
    Inv jsonbText turn s' ∧ (DistinctPairs s'.db turn → DistinctPairs s.db turn) ∧
      (DistinctPairs s'.db turn → s.client.Extends s'.client) := by
  obtain ⟨hdb, hinv⟩ := h
  cases action with
  | commit context events =>
      simp only [step, Option.ite_none_right_eq_some, Option.map_eq_some_iff] at hstep
      obtain ⟨hevents, db', hbatch, rfl⟩ := hstep
      have hdb' : Reached db' := .batch hdb hevents hbatch
      have hbetween := hdb.between hevents hbatch
      have hbefore : DistinctPairs db' turn → DistinctPairs s.db turn :=
        DistinctPairs.before hdb hdb' hbetween
      refine ⟨⟨hdb', fun hdistinct => ?_⟩, hbefore, fun _ => Client.Extends.refl _⟩
      exact (hinv (hbefore hdistinct)).commit hdb hdb' hbetween
  | link link =>
      cases hstep
      refine ⟨⟨hdb, fun hdistinct => ?_⟩, id, fun _ => Client.Extends.refl _⟩
      have hinv := hinv hdistinct
      exact ⟨hinv.synced, hinv.steady, hinv.next, hinv.reads⟩
  | begin =>
      simp only [step] at hstep
      split at hstep
      · rename_i hstage hqueue
        obtain ⟨⟨cursor, startOver⟩, hbegin, rfl⟩ := Option.map_eq_some_iff.mp hstep
        refine ⟨⟨hdb, fun hdistinct => ?_⟩, id, fun _ => Client.Extends.refl _⟩
        have hinv := hinv hdistinct
        have hdelivered : s.delivered = s.client := by
          rw [State.delivered, hqueue, List.foldl_nil]
        obtain ⟨hsynced, hextends, hsome⟩ := hinv.synced.now.header hdb hbegin
        apply hinv.move
        · rw [hdelivered]
          exact ⟨hsynced, hextends⟩
        · exact hsome
      · cases hstep
  | read =>
      have hdb' : s'.db = s.db ∧ s'.client = s.client := by
        have hread : read jsonbText session turn s = some s' := hstep
        unfold read at hread
        grind [State.send]
      refine ⟨⟨hdb'.1 ▸ hdb, fun hdistinct => ?_⟩, fun hdistinct => hdb'.1 ▸ hdistinct, fun _ => ?_⟩
      · rw [hdb'.1] at hdistinct
        exact (hinv hdistinct).read hdb hdistinct hstep
      · rw [hdb'.2]
        exact Client.Extends.refl _
  | receive =>
      simp only [step] at hstep
      split at hstep
      · cases hstep
      · rename_i record rest hqueue
        cases hstep
        refine ⟨⟨hdb, fun hdistinct => ?_⟩, id, fun hdistinct => ?_⟩
        · have hinv := hinv hdistinct
          obtain ⟨hsynced, hsteady, hnext, hreads⟩ := hinv
          have hdelivered : s.delivered = rest.foldl Client.receive (s.client.receive record) := by
            rw [State.delivered, hqueue, List.foldl_cons]
          rw [hqueue] at hsynced hsteady
          rw [hdelivered] at hnext hreads
          exact ⟨hsynced.tail, hsteady.tail, hnext, hreads⟩
        · have hsteady := (hinv hdistinct).steady
          rw [hqueue] at hsteady
          exact hsteady.head
  | abandon =>
      cases hstep
      refine ⟨⟨hdb, fun hdistinct => ?_⟩, id, fun _ => Client.Extends.refl _⟩
      exact ⟨.of_now (hinv hdistinct).synced.now, .of_now (Client.Extends.refl _), trivial, trivial⟩

/-! ## Runs -/

section Runs

theorem inv_start : Inv jsonbText turn {} := ⟨.empty, fun _ => .start⟩

theorem run_inv (hrun : Run (step jsonbText session turn) anyStep s s')
    (h : Inv jsonbText turn s) : Inv jsonbText turn s' := by
  apply hrun.invariant ?_ h
  intro a action a' ha _ hstep
  exact (step_inv ha hstep).1

/-- Along a run the client only moves forward. -/
theorem run_extends (hrun : Run (step jsonbText session turn) anyStep s s')
    (h : Inv jsonbText turn s) (hdistinct : DistinctPairs s'.db turn) :
    DistinctPairs s.db turn ∧ s.client.Extends s'.client := by
  induction hrun with
  | refl => exact ⟨hdistinct, Client.Extends.refl _⟩
  | snoc hrun hok hstep ih =>
      obtain ⟨-, hbefore, hextends⟩ := step_inv (run_inv hrun h) hstep
      obtain ⟨hdistinct', hextends'⟩ := ih (hbefore hdistinct)
      exact ⟨hdistinct', hextends'.trans (hextends hdistinct)⟩

/-- An operation that is held in its stored version is held exactly. -/
theorem Synced.exact {op : OpRow} (h : Synced jsonbText db turn client)
    (hdistinct : DistinctPairs db turn) (hop : op ∈ turnOperations db turn)
    (hheld : Held client.operations op.pairId op.changedAt) :
    client.operations[op.pairId]? = some (operationValue jsonbText db op) := by
  obtain ⟨value, hvalue, hle⟩ := hheld
  obtain ⟨hid, stored, hstored, hpair, hversion⟩ := h.tracks op.pairId value hvalue
  cases hdistinct.eq_of_pairId hstored hop (hpair.trans hid)
  rcases hversion with rfl | hold
  · exact hvalue
  · omega

end Runs

/-! ## A stale operation and the next sync -/

section Awaiting

variable {pairId : String} {number version through : Int}

/-- The client has the version, or its cursor is still before the operation in a sync that
reaches it. -/
def Awaited (pairId : String) (number version through : Int) (client : Client) : Prop :=
  ∃ cursor, client.cursor = some cursor ∧ (Held client.operations pairId version ∨
    (cursor.since = through ∧ ∀ checkpoint ∈ cursor.through,
      version ≤ checkpoint ∧ cursor.operationAfter < number))

structure Awaiting (turn : Int) (pairId : String) (number version through : Int) (s : State) :
    Prop where
  stored : ∃ op ∈ turnOperations s.db turn, op.pairId = pairId ∧ ord op = number ∧
    version ≤ op.changedAt
  awaited : Throughout Client.receive (Awaited pairId number version through) s.client s.inFlight
  next : s.stage.Next (Awaited pairId number version through) s.delivered
  scanned : ∀ cursor rows, s.stage = .scanned cursor rows →
    Held s.delivered.operations pairId version ∨
      (number ≤ cursor.operationAfter ∨ rows = [] →
        ∃ row ∈ rows, row.pairId = pairId ∧ version ≤ row.changedAt)

/-- A batch whose cursor is the same, or behind the same operations. -/
theorem Awaited.batch {before : Cursor} (h : Awaited pairId number version through client)
    (cursor : Cursor) (hcursor : client.cursor = some before) (hsince : cursor.since = before.since)
    (hthrough : cursor.through = before.through)
    (hafter : cursor.operationAfter = before.operationAfter) (page : List (Int × TimelineChunk))
    (values : List OperationValue) :
    Awaited pairId number version through (client.receive (.batch page values cursor)) := by
  obtain ⟨cursor', hcursor', hstate⟩ := h
  rw [hcursor] at hcursor'
  cases hcursor'
  refine ⟨cursor, rfl, ?_⟩
  rcases hstate with hheld | ⟨hold, hpending⟩
  · exact Or.inl (hheld.foldl values)
  · refine Or.inr ⟨hsince.trans hold, ?_⟩
    rw [hthrough, hafter]
    exact hpending

namespace Awaiting

theorem send (h : Awaiting turn pairId number version through s) {record : Record} {stage : Stage}
    (hawaited : Awaited pairId number version through (s.delivered.receive record))
    (hstage : stage = .idle ∨ ∃ cursor, stage = .ready cursor) :
    Awaiting turn pairId number version through (s.send record stage) where
  stored := h.stored
  awaited := h.awaited.send hawaited
  next := by
    rcases hstage with rfl | ⟨cursor, rfl⟩
    · trivial
    · trivial
  scanned := by
    intro cursor rows hscanned
    have hscanned : stage = .scanned cursor rows := hscanned
    rcases hstage with rfl | ⟨cursor, rfl⟩
    · cases hscanned
    · cases hscanned

theorem read (h : Awaiting turn pairId number version through s) (hdb : Reached s.db)
    (hinv : SyncInv jsonbText turn s) (hversion : through < version)
    (hread : Stream.read jsonbText session turn s = some s') :
    Awaiting turn pairId number version through s' := by
  have hsynced : Synced jsonbText s.db turn s.delivered := hinv.synced.last
  have hawaited : Awaited pairId number version through s.delivered := h.awaited.last
  have hnext := h.next
  have hscanned := h.scanned
  have hreads := hinv.reads
  unfold Stream.read at hread
  cases hstage : s.stage with
  | idle =>
      rw [hstage] at hread
      cases hread
  | opening cursor startOver =>
      rw [hstage] at hread hnext
      dsimp only at hread
      split at hread
      · cases hread
        exact h.send hnext (Or.inr ⟨cursor, rfl⟩)
      · cases hread
        exact ⟨h.stored, h.awaited, trivial, fun _ _ hidle => nomatch hidle⟩
  | ready cursor =>
      rw [hstage] at hread hreads
      obtain ⟨hcursor, hsome⟩ := hreads
      have hcovers := hsynced.covers cursor hcursor
      dsimp only at hread
      rw [if_neg (not_not.mpr hcovers.turn_eq)] at hread
      by_cases hdone : cursor.itemsDone = true
      · rw [if_pos hdone] at hread
        cases hread
        refine ⟨h.stored, h.awaited, trivial, ?_⟩
        -- the scan reads the operation, unless it ends before it
        rintro cursor' rows ⟨⟩
        obtain ⟨cursor', hcursor', hstate⟩ := hawaited
        rw [hcursor] at hcursor'
        cases hcursor'
        rcases hstate with hheld | ⟨hold, hpending⟩
        · exact Or.inl hheld
        · refine Or.inr fun hreach => ?_
          obtain ⟨checkpoint, hcheckpoint⟩ := Option.isSome_iff_exists.mp hsome
          obtain ⟨op, hop, hpair, hnumber, hle⟩ := h.stored
          have hsince : cursor.since < op.changedAt := by omega
          have hafter : cursor.operationAfter < ord op := by
            rw [hnumber]
            exact (hpending checkpoint hcheckpoint).2
          refine ⟨op, ?_, hpair, hle⟩
          apply mem_operationRows_of_scan hdb hop hsince hafter
          rw [hnumber]
          exact hreach
      · rw [if_neg hdone] at hread
        have hbatch (page : List (Int × TimelineChunk)) (values : List OperationValue) :
            Awaited pairId number version through (s.delivered.receive
              (.batch page values (cursor.afterItems (itemRows s.db turn cursor)))) :=
          hawaited.batch (cursor.afterItems (itemRows s.db turn cursor)) hcursor rfl rfl rfl
            page values
        split at hread
        · cases hread
          exact h.send (hbatch _ _) (Or.inr ⟨_, rfl⟩)
        · cases hread
          exact ⟨h.stored, h.awaited, hbatch _ _, fun _ _ hitems => nomatch hitems⟩
  | items cursor page references =>
      rw [hstage] at hread hnext
      cases hread
      exact ⟨h.stored, h.awaited, hnext, fun _ _ hitems => nomatch hitems⟩
  | referenced cursor page rows =>
      rw [hstage] at hread hnext
      cases hread
      refine h.send ?_ (Or.inr ⟨cursor, rfl⟩)
      obtain ⟨cursor', hcursor', hstate⟩ := hnext
      exact ⟨cursor', hcursor', hstate.imp_left fun hheld => hheld.foldl _⟩
  | scanned cursor rows =>
      have hreach := hscanned cursor rows hstage
      rw [hstage] at hread hreads
      obtain ⟨before, hcursor, -, hsome, rfl, -, hrows, -⟩ := hreads
      obtain ⟨checkpoint, hcheckpoint⟩ := Option.isSome_iff_exists.mp hsome
      have hcheckpoint' : (before.afterOperations rows).through = some checkpoint := hcheckpoint
      dsimp only at hread
      cases hrows' : rows with
      | nil =>
          subst hrows'
          rw [List.isEmpty_nil, if_pos rfl, hcheckpoint'] at hread
          cases hread
          refine h.send ?_ (Or.inl rfl)
          rcases hreach with hheld | hreach
          · exact ⟨_, rfl, Or.inl hheld⟩
          · obtain ⟨row, hrow, -⟩ := hreach (Or.inr rfl)
            cases hrow
      | cons row rest =>
          rw [if_neg (by rw [hrows']; simp)] at hread
          cases hread
          refine h.send ⟨_, rfl, ?_⟩ (Or.inr ⟨_, rfl⟩)
          obtain ⟨before', hbefore', hstate⟩ := hawaited
          rw [hcursor] at hbefore'
          cases hbefore'
          rcases hreach with hheld | hreach
          · exact Or.inl (hheld.foldl _)
          · by_cases hpast : number ≤ (before.afterOperations rows).operationAfter
            · obtain ⟨row', hrow', hpair, hle⟩ := hreach (Or.inl hpast)
              have hheld : Held ((operationValues jsonbText s.db rows).foldl mergeOperation
                  s.delivered.operations) row'.pairId row'.changedAt := held_of_mem_rows
                    hrows hrow' _
              obtain ⟨value, hvalue, hle'⟩ := hheld
              rw [hpair] at hvalue
              exact Or.inl ⟨value, hvalue, hle.trans hle'⟩
            · rcases hstate with hheld | ⟨hold, hpending⟩
              · exact Or.inl (hheld.foldl _)
              · refine Or.inr ⟨hold, fun checkpoint' hcheckpoint' => ?_⟩
                exact ⟨(hpending checkpoint' hcheckpoint').1, not_le.mp hpast⟩

theorem step {action : Action} (h : Awaiting turn pairId number version through s)
    (hinv : Inv jsonbText turn s) (hdistinct : DistinctPairs s.db turn)
    (hnumber : -1 < number) (hversion : through < version)
    (hstep : Stream.step jsonbText session turn s action = some s') :
    Awaiting turn pairId number version through s' := by
  obtain ⟨hdb, hsync⟩ := hinv
  have hsync := hsync hdistinct
  cases action with
  | commit context events =>
      simp only [Stream.step, Option.ite_none_right_eq_some, Option.map_eq_some_iff] at hstep
      obtain ⟨hevents, db', hbatch, rfl⟩ := hstep
      refine ⟨?_, h.awaited, h.next, h.scanned⟩
      obtain ⟨op, hop, hpair, hord, hle⟩ := h.stored
      obtain ⟨op', hop', hsame, hchange⟩ :=
        stored_after hdb (.batch hdb hevents hbatch) (hdb.between hevents hbatch) hop
      refine ⟨op', hop', hsame.2.2.1.symm.trans hpair, ?_, ?_⟩
      · rw [← hord, ord, ord, hsame.2.1]
      · rcases hchange with ⟨rfl, -⟩ | hnew
        · exact hle
        · exact hle.trans hnew.le
  | link link =>
      cases hstep
      exact ⟨h.stored, h.awaited, h.next, h.scanned⟩
  | begin =>
      simp only [Stream.step] at hstep
      split at hstep
      · rename_i hstage hqueue
        obtain ⟨⟨cursor, startOver⟩, hbegin, rfl⟩ := Option.map_eq_some_iff.mp hstep
        refine ⟨h.stored, h.awaited, ?_, fun _ _ hopening => nomatch hopening⟩
        have hdelivered : s.delivered = s.client := by
          rw [State.delivered, hqueue, List.foldl_nil]
        show Awaited pairId number version through (s.delivered.receive (.header cursor startOver))
        rw [hdelivered]
        obtain ⟨previous, hprevious, hstate⟩ := h.awaited.now
        have hcovers := hsync.synced.now.covers previous hprevious
        rw [hprevious] at hbegin
        obtain ⟨rfl, rfl⟩ := beginCursor_some hcovers hbegin
        refine ⟨_, rfl, hstate.imp_right ?_⟩
        rintro ⟨hold, hpending⟩
        refine ⟨hold, ?_⟩
        rintro checkpoint ⟨⟩
        cases hthrough : previous.through with
        | some checkpoint => exact hpending checkpoint hthrough
        | none =>
            -- a sync that begins now reaches everything stored now
            obtain ⟨op, hop, -, -, hle⟩ := h.stored
            refine ⟨hle.trans (hdb.changedAt_mem (mem_turnOperations.mp hop).1).2, ?_⟩
            dsimp only
            rw [(hcovers.completed hthrough).1]
            exact hnumber
      · cases hstep
  | read => exact h.read hdb hsync hversion hstep
  | receive =>
      simp only [Stream.step] at hstep
      split at hstep
      · cases hstep
      · rename_i record rest hqueue
        cases hstep
        obtain ⟨hstored, hawaited, hnext, hscanned⟩ := h
        have hdelivered : s.delivered = rest.foldl Client.receive (s.client.receive record) := by
          rw [State.delivered, hqueue, List.foldl_cons]
        rw [hqueue] at hawaited
        rw [hdelivered] at hnext hscanned
        exact ⟨hstored, hawaited.tail, hnext, hscanned⟩
  | abandon =>
      cases hstep
      exact ⟨h.stored, .of_now h.awaited.now, trivial, fun _ _ hidle => nomatch hidle⟩

/-- **A run that completes a later sync** has sent the version that was awaited. -/
theorem run (hrun : Run (Stream.step jsonbText session turn) anyStep s s')
    (h : Awaiting turn pairId number version through s) (hinv : Inv jsonbText turn s)
    (hdistinct : DistinctPairs s'.db turn) (hnumber : -1 < number) (hversion : through < version) :
    Awaiting turn pairId number version through s' := by
  induction hrun with
  | refl => exact h
  | snoc hrun hok hstep ih =>
      have hbefore := (step_inv (run_inv hrun hinv) hstep).2.1 hdistinct
      exact (ih hbefore).step (run_inv hrun hinv) hbefore hnumber hversion hstep

end Awaiting

end Awaiting

/-! ## The stream -/

/-- One batch, then a sync each of whose records is received as it is sent. -/
def syncAfter (events : List StoredEvent) : List Action :=
  [.commit plainContext events, .begin, .read, .receive,
    -- a page of items with the calls it refers to
    .read, .read, .read, .receive,
    -- a page of operations, and an empty one
    .read, .read, .receive, .read, .read, .receive]

/-- The state of the turn at 0 after that. -/
def syncedState (events : List StoredEvent) : State :=
  (runList (step (fun _ => "") 0 0) {} (syncAfter events)).getD {}

theorem run_syncedState (events : List StoredEvent)
    (h : (runList (step (fun _ => "") 0 0) {} (syncAfter events)).isSome = true) :
    Run (step (fun _ => "") 0 0) anyStep {} (syncedState events) := by
  apply Run.of_runList (syncAfter events)
  obtain ⟨s, hs⟩ := Option.isSome_iff_exists.mp h
  rw [syncedState, hs, Option.getD_some]

/-- **A complete sync is complete**, while the operations of the turn have different pair ids:
the client then has every item up to the checkpoint and, as it is stored, every operation last
changed up to there. From then on an operation that it does not have as stored was changed
behind the checkpoint, and the next sync sends it. -/
theorem turn_stream_complete (jsonbText : Json → String) (session : Uuid) (turn : Int) {s : State}
    {through : Int} (hrun : Run (step jsonbText session turn) anyStep {} s)
    (hcomplete : s.client.Complete through) (hdistinct : DistinctPairs s.db turn) :
    (∀ (offset : Int) (chunk : TimelineChunk), (offset, chunk) ∈ turnItems s.db turn →
      offset ≤ through → s.client.items[offset]? = some (classifyBookkeeping chunk)) ∧
    (∀ op ∈ turnOperations s.db turn, op.changedAt ≤ through →
      s.client.operations[op.pairId]? = some (operationValue jsonbText s.db op)) ∧
    ∀ s' : State, Run (step jsonbText session turn) anyStep s s' → DistinctPairs s'.db turn →
      ∀ op ∈ turnOperations s'.db turn,
        s'.client.operations[op.pairId]? ≠ some (operationValue jsonbText s'.db op) →
        through < op.changedAt ∧
          (s'.client.Complete through → s'.stage = .idle → s'.inFlight = [] →
            ∀ (s'' : State) (through' : Int),
              Run (step jsonbText session turn) anyStep s' s'' → DistinctPairs s''.db turn →
              s''.client.Complete through' → through' ≠ through →
              ∃ value, s''.client.operations[op.pairId]? = some value ∧
                op.changedAt ≤ value.bodyVersion) := by
  have hinv := run_inv hrun inv_start
  have hsynced : Synced jsonbText s.db turn s.client := (hinv.2 hdistinct).synced.now
  obtain ⟨cursor, hcursor, -, hsince⟩ := hcomplete
  have hcovers := hsynced.covers cursor hcursor
  refine ⟨?_, ?_, ?_⟩
  · intro offset chunk hitem hle
    apply hcovers.items offset chunk hitem
    exact hle.trans (hsince ▸ hcovers.item_ge)
  · intro op hop hle
    exact hsynced.exact hdistinct hop (hcovers.operations op hop (hle.trans hsince.ge))
  · intro s' hrun' hdistinct' op hop hstale
    have hinv' := run_inv hrun' hinv
    have hsync' := hinv'.2 hdistinct'
    have hsynced' : Synced jsonbText s'.db turn s'.client := hsync'.synced.now
    obtain ⟨cursor', hcursor', hmono⟩ := ((run_extends hrun' hinv hdistinct').2 cursor hcursor).1
    have hcovers' := hsynced'.covers cursor' hcursor'
    have hbehind : through < op.changedAt := by
      by_contra hle
      apply hstale
      apply hsynced'.exact hdistinct' hop (hcovers'.operations op hop ?_)
      omega
    refine ⟨hbehind, ?_⟩
    rintro ⟨cursor₁, hcursor₁, hnone, hsince₁⟩ hidle hqueue s'' through' hrun'' hdistinct''
      ⟨cursor'', hcursor'', -, hsince''⟩ hlater
    have hpending : Awaited op.pairId (ord op) op.changedAt through s'.client := by
      refine ⟨cursor₁, hcursor₁, Or.inr ⟨hsince₁, ?_⟩⟩
      rw [hnone]
      rintro checkpoint ⟨⟩
    have hawaiting : Awaiting turn op.pairId (ord op) op.changedAt through s' := by
      refine ⟨⟨op, hop, rfl, rfl, le_rfl⟩, ?_, ?_, ?_⟩
      · rw [hqueue]
        exact .of_now hpending
      · rw [hidle]
        trivial
      · intro cursor rows hscanned
        rw [hidle] at hscanned
        cases hscanned
    have hnumber : -1 < ord op := by
      unfold ord
      omega
    have hlast := hawaiting.run hrun'' hinv' hdistinct'' hnumber hbehind
    obtain ⟨cursor₂, hcursor₂, hstate⟩ := hlast.awaited.now
    rw [hcursor''] at hcursor₂
    cases hcursor₂
    rcases hstate with hheld | ⟨hsame, -⟩
    · exact hheld
    · exact absurd (hsince''.symm.trans hsame) hlater

theorem turn_stream_complete_session :
    (turnOperations (syncedState shortSession).db 0).length = 1 ∧
      ∀ op ∈ turnOperations (syncedState shortSession).db 0, op.changedAt ≤ 90 →
        (syncedState shortSession).client.operations[op.pairId]? =
          some (operationValue (fun _ => "") (syncedState shortSession).db op) := by
  have hrun := run_syncedState shortSession (by decide +kernel)
  have hcomplete : (syncedState shortSession).client.Complete 90 :=
    ⟨⟨0, 90, none, 90, -1, false⟩, by decide +kernel, rfl, rfl⟩
  have hdistinct : ((turnOperations (syncedState shortSession).db 0).map OpRow.pairId).Nodup := by
    decide +kernel
  exact ⟨by decide +kernel, (turn_stream_complete _ 0 0 hrun hcomplete hdistinct).2.1⟩

/-- A session whose assistant event has two calls of one id. -/
def duplicateSession : List StoredEvent :=
  [plainEvent 0 "user" [{ ord := 0, kind := .text, text := some "list the files" }],
    plainEvent 40 "assistant"
      [{ ord := 0, kind := .toolUse, toolId := some "call", toolName := some "Bash" },
        { ord := 1, kind := .toolUse, toolId := some "call", toolName := some "Read" }],
    plainEvent 90 "user"
      [{ ord := 0, kind := .toolResult, toolId := some "call", text := some "a.txt" }]]

/-- **Two operations of one pair id**: the client has one of them, and no value that the
stream reads carries the version of the other. -/
theorem turn_stream_duplicate :
    ∃ s : State, Run (step (fun _ => "") 0 0) anyStep {} s ∧ s.client.Complete 90 ∧
      ∃ op ∈ turnOperations s.db 0, op.changedAt ≤ 90 ∧
        s.client.operations[op.pairId]? ≠ some (operationValue (fun _ => "") s.db op) ∧
        ∀ value ∈ operationValues (fun _ => "") s.db (turnOperations s.db 0),
          value.bodyVersion ≠ op.changedAt := by
  have hrun := run_syncedState duplicateSession (by decide +kernel)
  have hfound : ((turnOperations (syncedState duplicateSession).db 0).any fun op =>
      decide (op.changedAt ≤ 90) &&
        decide (((syncedState duplicateSession).client.operations[op.pairId]?).map
          (fun value => value.bodyVersion) ≠ some op.changedAt) &&
        (operationValues (fun _ => "") (syncedState duplicateSession).db
          (turnOperations (syncedState duplicateSession).db 0)).all fun value =>
            decide (value.bodyVersion ≠ op.changedAt)) = true := by
    decide +kernel
  obtain ⟨op, hop, hcond⟩ := List.any_eq_true.mp hfound
  rw [Bool.and_eq_true, Bool.and_eq_true, List.all_eq_true, decide_eq_true_iff,
    decide_eq_true_iff] at hcond
  obtain ⟨⟨hle, hversion⟩, hvalues⟩ := hcond
  refine ⟨syncedState duplicateSession, hrun,
    ⟨⟨0, 90, none, 90, -1, false⟩, by decide +kernel, rfl, rfl⟩, op, hop, hle, ?_, ?_⟩
  · intro hvalue
    rw [hvalue] at hversion
    exact hversion rfl
  · intro value hmem
    exact of_decide_eq_true (hvalues value hmem)

end Sulion.Timeline.Stream
