import Sulion.Timeline.Changes

set_option autoImplicit false

/-! # The life of an operation

An operation is pending until its first result; the result leaves it running in a cell or
finished, and a `wait` that completes the cell finishes it. Four writers touch these columns: the
call, its results, the wait and the runtime evidence. `Lifecycle` is what each of them leaves of
the row, `Noted` what they leave of the row's turn; `Between` says which rows an event changes.

A reducer in the middle of a batch holds the changed rows itself: `turnsNow` and `opsNow` are the
tables as it sees them.
-/

namespace Sulion.Timeline

open Sulion.Rust Table

/-- **The lifecycle of an operation.** -/
structure Lifecycle (op : OpRow) : Prop where
  /-- It is pending, running or finished, and only one of them. -/
  phase : [op.isPending, op.runningCell.isSome, op.finishedAt.isSome].count true = 1
  error : op.isError = (op.callError || op.resultIsError)
  pending : op.isPending = true →
    op.resultContent = none ∧ op.resultPayload = none ∧ op.resultIsError = false
  called : op.callError = true → op.isPending = false → op.resultIsError = true
  changed : op.callOffset ≤ op.changedAt

/-- A failed operation is noted on its turn. -/
def Noted (turns : Table Int TurnRow) (op : OpRow) : Prop :=
  op.isError = true → ∃ row, turns[op.turnId]? = some row ∧ row.hasErrors = true

variable {context : Context} {bound : Int} {p : Projection} {f : TurnRow → TurnRow} {t : Int}
  {op : OpRow} {event : StoredEvent}

/-! ## The four writers -/

theorem Lifecycle.newOp (turnId : Int) (operationOrd : Nat) (tool : ToolUseView)
    (event : StoredEvent) : Lifecycle (Timeline.newOp turnId operationOrd tool event) where
  phase := rfl
  error := (Bool.or_false _).symm
  pending := fun _ => ⟨rfl, rfl, rfl⟩
  called := fun _ hpending => absurd hpending.symm Bool.false_ne_true
  changed := le_rfl

/-- A result ends the waiting, whatever the row was before. -/
theorem Lifecycle.setResult (block : Block) (hoffset : op.callOffset ≤ event.byteOffset) :
    Lifecycle (Timeline.setResult op block event) where
  phase := by
    show [false, (runningCell block.text).isSome,
      (if (runningCell block.text).isSome then none else some event.timestamp).isSome].count
        true = 1
    cases runningCell block.text <;> rfl
  error := rfl
  pending := fun hpending => absurd hpending Bool.false_ne_true
  called := by
    intro hcall _
    show (block.isError.getD false || op.callError) = true
    rw [show op.callError = true from hcall, Bool.or_true]
  changed := hoffset

/-- A call that runs in a cell is not pending, so closing the cell finishes it. -/
theorem Lifecycle.closeCell (h : Lifecycle op) (hrunning : op.runningCell.isSome = true)
    (hoffset : op.callOffset ≤ event.byteOffset) : Lifecycle (Timeline.closeCell event op) := by
  have hpending : op.isPending = false := by
    have hphase := h.phase
    rw [hrunning] at hphase
    cases hp : op.isPending with
    | false => rfl
    | true =>
        rw [hp] at hphase
        cases hfinished : op.finishedAt.isSome <;> rw [hfinished] at hphase <;>
          exact absurd hphase (by decide)
  exact
    { phase := by
        show [op.isPending, false, true].count true = 1
        rw [hpending]
        rfl
      error := h.error
      pending := h.pending
      called := h.called
      changed := hoffset }

theorem Lifecycle.foldEvidence (h : Lifecycle op) (evidence : Json) (failed : Bool)
    (hoffset : op.callOffset ≤ event.byteOffset) :
    Lifecycle (Timeline.foldEvidence event evidence failed op) where
  phase := h.phase
  error := rfl
  pending := by
    intro hpending
    have hpending' : op.isPending = true := hpending
    obtain ⟨hcontent, hpayload, hflag⟩ := h.pending hpending'
    refine ⟨hcontent, ?_, ?_⟩
    · show (if op.isPending then op.resultPayload else _) = none
      rw [if_pos hpending', hpayload]
    · show (if op.isPending then op.resultIsError else _) = false
      rw [if_pos hpending', hflag]
  called := by
    intro hcall hpending
    have hpending' : op.isPending = false := hpending
    show (if op.isPending then op.resultIsError else op.resultIsError || _) = true
    rw [hpending', if_neg Bool.false_ne_true]
    rcases Bool.or_eq_true_iff.mp hcall with hold | hnew
    · rw [h.called hold hpending', Bool.true_or]
    · rw [hnew, Bool.or_true]
  changed := hoffset

/-! ## Turns -/

/-- A change to turns that forgets no error. -/
def TurnRow.KeepsErrors (f : TurnRow → TurnRow) : Prop :=
  ∀ row : TurnRow, row.hasErrors = true → (f row).hasErrors = true

theorem TurnRow.keepsErrors_countEvent (event : StoredEvent) :
    TurnRow.KeepsErrors (TurnRow.countEvent event) := by
  intro row hrow
  unfold TurnRow.countEvent
  split <;> exact hrow

theorem TurnRow.keepsErrors_countCall (tool : ToolUseView) :
    TurnRow.KeepsErrors (TurnRow.countCall tool) := by
  intro row hrow
  show (row.hasErrors || tool.isError) = true
  rw [hrow, Bool.true_or]

theorem TurnRow.keepsErrors_noteError (isError : Bool) :
    TurnRow.KeepsErrors (TurnRow.noteError isError) := by
  intro row hrow
  show (row.hasErrors || isError) = true
  rw [hrow, Bool.true_or]

/-- The turns keep the errors noted. -/
def ErrorsKept (p p' : Projection) : Prop :=
  ∀ (t : Int) (row : TurnRow), p.turns[t]? = some row → row.hasErrors = true →
    ∃ row', p'.turns[t]? = some row' ∧ row'.hasErrors = true

theorem Noted.mono {p p' : Projection} (h : Noted p.turns op) (hkept : ErrorsKept p p') :
    Noted p'.turns op := by
  intro herror
  obtain ⟨row, hrow, hflag⟩ := h herror
  exact hkept op.turnId row hrow hflag

theorem ErrorsKept.modifyTurn (hf : TurnRow.KeepsErrors f) : ErrorsKept p (p.modifyTurn t f) := by
  intro t' row hrow hflag
  obtain ⟨row', hrow', hcases⟩ := exists_lookup_modify (k := t) (f := f) hrow
  refine ⟨row', hrow', ?_⟩
  rcases hcases with rfl | rfl
  · exact hflag
  · exact hf row hflag

/-! ## The tables -/

/-- Every operation is well and noted on its turn. -/
structure WellLived (p : Projection) : Prop where
  life : ∀ (k : OpKey) (op : OpRow), p.ops[k]? = some op → Lifecycle op
  noted : ∀ (k : OpKey) (op : OpRow), p.ops[k]? = some op → Noted p.turns op

namespace WellLived

theorem empty : WellLived {} where
  life := fun k op hk => by simp at hk
  noted := fun k op hk => by simp at hk

/-- The operations are the same and no noted error is forgotten. -/
theorem of_ops {p' : Projection} (h : WellLived p) (hops : p'.ops = p.ops)
    (hkept : ErrorsKept p p') : WellLived p' where
  life := by
    rw [hops]
    exact h.life
  noted := by
    rw [hops]
    exact fun k op hk => (h.noted k op hk).mono hkept

theorem modifyTurn (h : WellLived p) (hf : TurnRow.KeepsErrors f) :
    WellLived (p.modifyTurn t f) := h.of_ops rfl (.modifyTurn hf)

theorem storeOp (h : WellLived p) (hlife : Lifecycle op) (hnoted : Noted p.turns op)
    (inputChanged : Bool) : WellLived (p.storeOp context op inputChanged) := by
  have hstored (k : OpKey) (op' : OpRow)
      (hk : (p.storeOp context op inputChanged).ops[k]? = some op') :
      op' = op ∨ p.ops[k]? = some op' := by
    change (p.ops.insert op.key op)[k]? = some op' at hk
    rw [lookup_insert] at hk
    split at hk
    · exact Or.inl (Option.some.inj hk).symm
    · exact Or.inr hk
  constructor
  · intro k op' hk
    rcases hstored k op' hk with rfl | hold
    · exact hlife
    · exact h.life k op' hold
  · intro k op' hk
    rcases hstored k op' hk with rfl | hold
    · exact hnoted
    · exact h.noted k op' hold

/-- An operation is stored, and its failure noted on its turn. -/
theorem storeNoted (h : WellLived p) (hlife : Lifecycle op) (hturn : p.HasTurn op.turnId)
    (inputChanged : Bool) :
    WellLived ((p.storeOp context op inputChanged).noteOwnerError op) := by
  have hnoted : Noted (p.noteOwnerError op).turns op := by
    intro herror
    obtain ⟨row, hrow⟩ := hturn
    refine ⟨TurnRow.noteError op.isError row, ?_, ?_⟩
    · show (p.turns.modify op.turnId _)[op.turnId]? = _
      rw [lookup_modify, if_pos rfl, hrow]
      rfl
    · show (row.hasErrors || op.isError) = true
      rw [herror, Bool.or_true]
  -- noting the error first comes to the same
  exact (h.modifyTurn (TurnRow.keepsErrors_noteError op.isError)).storeOp hlife hnoted inputChanged

theorem addCall (h : WellLived p) (ht : p.HasTurn t) (event : StoredEvent) (tool : ToolUseView) :
    WellLived (p.addCall context t event tool) := by
  refine (h.modifyTurn (TurnRow.keepsErrors_countCall tool)).storeOp (.newOp _ _ _ _) ?_ true
  intro herror
  obtain ⟨row, hrow⟩ := ht
  refine ⟨TurnRow.countCall tool row, ?_, ?_⟩
  · show (p.turns.modify t _)[t]? = _
    rw [lookup_modify, if_pos rfl, hrow]
    rfl
  · show (row.hasErrors || tool.isError) = true
    rw [show tool.isError = true from herror, Bool.or_true]

theorem addReply (h : WellLived p) (context : Context) (ht : p.HasTurn t) (event : StoredEvent) :
    WellLived (p.addReply context t event) := by
  have hcalls : WellLived ((toolUsesIn event).foldl (Projection.addCall context t event) p) := by
    generalize toolUsesIn event = tools
    induction tools generalizing p with
    | nil => exact h
    | cons tool tools ih =>
        exact ih (h.addCall ht event tool) (Projection.hasTurn_modifyTurn.mpr ht)
  unfold Projection.addReply
  split
  · exact hcalls.modifyTurn fun _ hrow => hrow
  · exact h

/-- Closing calls that run in a cell, one after the other. -/
theorem closeAll (h : WellLived p) (context : Context) (running : List OpRow)
    (hrunning : ∀ op ∈ running, Lifecycle op ∧ op.runningCell.isSome = true ∧
      op.callOffset ≤ event.byteOffset ∧ Noted p.turns op) :
    WellLived (running.foldl (fun p op => p.storeOp context (closeCell event op) false) p) := by
  induction running generalizing p with
  | nil => exact h
  | cons op running ih =>
      obtain ⟨hlife, hcell, hoffset, hnoted⟩ := hrunning op List.mem_cons_self
      refine ih (h.storeOp (hlife.closeCell hcell hoffset) hnoted false) ?_
      intro op' hop'
      exact hrunning op' (List.mem_cons_of_mem op hop')

theorem closeCells (h : WellLived p) (hc : Consistent bound p) (context : Context) (wait : OpRow)
    (block : Block) (hbound : bound ≤ event.byteOffset) :
    WellLived (p.closeCells context wait block event) := by
  unfold Projection.closeCells
  split
  · exact h
  · rename_i cell _
    apply h.closeAll context
    intro op hop
    obtain ⟨hmem, hcell⟩ := List.mem_filter.mp hop
    have hop' := hc.ops.keyed.mem_rows.mp hmem
    have hcell' : op.runningCell = some cell := (of_decide_eq_true hcell).1
    refine ⟨h.life _ op hop', ?_, ?_, h.noted _ op hop'⟩
    · rw [hcell']
      rfl
    · exact (hc.ops.offset _ op hop').2.trans hbound

theorem landResult (h : WellLived p) (hc : Consistent bound p) (context : Context)
    (hop : p.StoredCall op) (block : Block) (hbound : bound ≤ event.byteOffset) :
    WellLived (p.landResult context op block event) := by
  have hoffset : op.callOffset ≤ event.byteOffset := by
    obtain ⟨old, hold, hsame⟩ := hop
    have holdOffset := (hc.ops.offset _ old hold).2
    have hcall : old.callOffset = op.callOffset := hsame.2.2.2.2.2.2.2.1
    omega
  have hclosed := h.closeCells hc context (setResult op block event) block hbound
  refine hclosed.storeNoted (.setResult block hoffset) ?_ false
  show ∃ row, (p.closeCells context _ block event).turns[op.turnId]? = some row
  rw [Projection.turns_closeCells]
  exact hc.hasTurn_of_stored hop

theorem addResult (h : WellLived p) (hc : Consistent bound p) (context : Context) (t : Int)
    (block : Block) (hbound : bound ≤ event.byteOffset) :
    WellLived (p.addResult context t event block) := by
  have hflag : WellLived
        (if block.isError.getD false then p.modifyTurn t (TurnRow.noteError true) else p) ∧
      Consistent bound
        (if block.isError.getD false then p.modifyTurn t (TurnRow.noteError true) else p) := by
    split
    · exact ⟨h.modifyTurn (TurnRow.keepsErrors_noteError true),
        hc.modifyTurn (TurnRow.keepsSeed_noteError true) (TurnRow.keepsCounts_noteError true)⟩
    · exact ⟨h, hc⟩
  unfold Projection.addResult
  simp only
  split
  · exact hflag.1
  · rename_i op hfound
    obtain ⟨pairId, -, hop⟩ := Option.bind_eq_some_iff.mp hfound
    have hstored := Projection.storedCall_of_mem hflag.2.ops.keyed (Projection.mem_of_latestOp hop)
    exact hflag.1.landResult hflag.2 context hstored block hbound

theorem addResults (h : WellLived p) (hc : Consistent bound p) (context : Context) (t : Int)
    (hbound : bound ≤ event.byteOffset) : WellLived (p.addResults context t event) := by
  unfold Projection.addResults
  split
  · generalize event.blocks.filter (fun block => block.kind = .toolResult) = blocks
    induction blocks generalizing p with
    | nil => exact h
    | cons block blocks ih =>
        exact ih (h.addResult hc context t block hbound) (hc.addResult t block)
  · exact h

theorem correlate (h : WellLived p) (hc : Consistent bound p) (context : Context)
    (hbound : bound ≤ event.byteOffset) : WellLived (p.correlate context event).1 := by
  unfold Projection.correlate
  generalize evidenceIn event = evidence
  have hfold (acc : Projection × StoredEvent) (hc : Consistent bound acc.1)
      (hacc : WellLived acc.1) :
      WellLived (evidence.foldl (Projection.addEvidence context event) acc).1 := by
    induction evidence generalizing acc with
    | nil => exact hacc
    | cons e evidence ih =>
        refine ih _ (hc.addEvidence e) ?_
        unfold Projection.addEvidence
        split
        · rename_i op howner
          have hmem : op ∈ acc.1.owners event e.1 := by
            rw [howner]
            exact List.mem_singleton_self op
          have hrow := Projection.mem_of_mem_owners hmem
          have hop := hc.ops.keyed.mem_rows.mp hrow
          have hoffset := (hc.ops.offset _ op hop).2.trans hbound
          have hturn : acc.1.HasTurn op.turnId :=
            hc.hasTurn_of_stored (Projection.storedCall_of_mem hc.ops.keyed hrow)
          exact hacc.storeNoted ((hacc.life _ op hop).foldEvidence e.1 e.2 hoffset) hturn true
        · exact hacc
  exact hfold (p, event) hc h

/-! ## Events -/

theorem addItem (h : WellLived p) (t : Int) (event : StoredEvent) :
    WellLived (p.addItem t event) := by
  have hkept : ErrorsKept p (p.addItem t event) := by
    intro t' row hrow hflag
    unfold Projection.addItem
    split <;> exact ⟨row, hrow, hflag⟩
  refine h.of_ops ?_ hkept
  unfold Projection.addItem
  split <;> rfl

theorem charge (h : WellLived p) (t : Int) (messageId : String) (tokens : Int × Int) :
    WellLived (p.charge t messageId tokens) := by
  have hwithdrawn (owner : Int) : WellLived (p.withdraw owner messageId) := by
    unfold Projection.withdraw
    split
    · split
      · exact h.modifyTurn fun _ hrow => hrow
      · exact h
    · exact h
  have hadded : WellLived ((p.withdraw (p.usageOwner t messageId) messageId).modifyTurn
      (p.usageOwner t messageId) (TurnRow.addTokens tokens)) :=
    (hwithdrawn _).modifyTurn fun _ hrow => hrow
  exact hadded.of_ops rfl fun t row hrow hflag => ⟨row, hrow, hflag⟩

theorem addUsage (h : WellLived p) (t : Int) (event : StoredEvent) :
    WellLived (p.addUsage t event) := by
  unfold Projection.addUsage
  split
  · exact h
  · split
    · rename_i usage _ _
      have hset : WellLived (p.modifyTurn t (TurnRow.setTotals
          (token usage "input_tokens", token usage "output_tokens"))) :=
        h.modifyTurn fun _ hrow => hrow
      exact hset.of_ops rfl fun t row hrow hflag => ⟨row, hrow, hflag⟩
    · split
      · exact h.modifyTurn fun _ hrow => hrow
      · exact h.charge t _ _

theorem append (h : WellLived p) (hc : Consistent bound p) (context : Context) (ht : p.HasTurn t)
    (hlow : t ≤ event.byteOffset) (hbound : bound = event.byteOffset) :
    WellLived (p.append context t event) := by
  have hcounted : WellLived (p.countEvent t event) :=
    h.of_ops rfl (.modifyTurn (TurnRow.keepsErrors_countEvent event))
  have hconsistent := hc.countEvent ht event
  have hturn : (p.countEvent t event).HasTurn t := Projection.hasTurn_modifyTurn.mpr ht
  obtain ⟨hreplied, -⟩ := hconsistent.addReply context hturn hlow hbound.ge
  have hreply := hcounted.addReply context hturn event
  exact ((hreply.addResults hreplied context t hbound.le).addItem t event).addUsage t event

theorem openFor (h : WellLived p) (hfresh : p.turns[event.byteOffset]? = none)
    (context : Context) : WellLived (p.openFor context event) := by
  have hopen : ErrorsKept p (p.openTurn event (isRealUserPrompt event) event.isSidechain) := by
    intro t row hrow hflag
    have hne : event.byteOffset ≠ t := by
      rintro rfl
      rw [hfresh] at hrow
      exact absurd hrow (Option.some_ne_none row).symm
    exact ⟨row, (lookup_insert_ne p.turns _ hne).trans hrow, hflag⟩
  have hopened : WellLived (p.openTurn event (isRealUserPrompt event) event.isSidechain) :=
    h.of_ops rfl hopen
  unfold Projection.openFor
  simp only
  split
  · exact hopened.of_ops rfl fun t row hrow hflag => ⟨row, hrow, hflag⟩
  · exact hopened

theorem settle (h : WellLived p) (hc : Consistent bound p) (context : Context)
    (hfirst : bound < event.byteOffset) (hthrough : event.byteOffset ≤ p.state.projectedThrough) :
    WellLived (p.settle context event) := by
  unfold Projection.settle
  split
  · exact h
  · rename_i t hplace
    obtain ⟨row, hrow⟩ := hc.hasTurn_of_place hplace
    have hlow : t ≤ event.byteOffset := (hc.turns.le_bound t row hrow).trans hfirst.le
    exact h.append (hc.mono hfirst.le hthrough) context ⟨row, hrow⟩ hlow rfl
  · have hfresh : p.turns[event.byteOffset]? = none := by
      cases hrow : p.turns[event.byteOffset]? with
      | none => rfl
      | some row =>
          have := hc.turns.le_bound _ _ hrow
          omega
    obtain ⟨hc', hturn⟩ := hc.openFor context hfirst hthrough
    split
    · exact h.openFor hfresh context
    · exact (h.openFor hfresh context).append hc' context hturn le_rfl rfl

/-- **One event.** -/
theorem step (h : WellLived p) (hc : Consistent bound p) (context : Context)
    (hfirst : bound < event.byteOffset) : WellLived (p.step context event) := by
  have hadvance : WellLived (p.advance event) :=
    h.of_ops rfl fun t row hrow hflag => ⟨row, hrow, hflag⟩
  unfold Projection.step
  simp only
  split
  · exact hadvance
  · have hsame := sameReceipt_correlate context (p.advance event) event
    have hstate := state_correlate context (p.advance event) event
    have hcorrelate : WellLived ((p.advance event).correlate context event).1 :=
      hadvance.correlate (hc.advance event) context hfirst.le
    have hc' := (hc.advance event).correlate context event
    have hthrough : event.byteOffset ≤ (p.advance event).state.projectedThrough :=
      le_max_right _ _
    rw [← hstate] at hthrough
    generalize (p.advance event).correlate context event = acc at *
    obtain ⟨p1, event1⟩ := acc
    have hlinks : WellLived (p1.addLinks
        (eventLinks context.parseUuid context.sessionUuid context.childOf event1)) :=
      hcorrelate.of_ops rfl fun t row hrow hflag => ⟨row, hrow, hflag⟩
    simp only
    split
    · exact hlinks
    · rw [← hsame.1] at hfirst hthrough
      exact hlinks.settle (hc'.addLinks _) context hfirst hthrough

/-- **Events in order.** -/
theorem steps {events : List StoredEvent} (h : WellLived p) (hc : Consistent bound p)
    (hevents : Ascending bound events) (context : Context) :
    WellLived (events.foldl (Projection.step context) p) := by
  induction events generalizing bound p with
  | nil => exact h
  | cons event events ih =>
      obtain ⟨hfirst, hrest⟩ := ascending_cons.mp hevents
      exact ih (h.step hc context hfirst) (hc.step hfirst) hrest

end WellLived

/-- **Batches.** -/
theorem Reached.wellLived (h : Reached p) : WellLived p := by
  induction h with
  | empty => exact .empty
  | @batch db db' context events hdb hevents hbatch ih =>
      rw [projectBatch_eq hdb.consistent hevents] at hbatch
      rw [← Option.some.inj hbatch]
      exact ih.steps hdb.consistent hevents context

/-! ## Reducers in the middle of a batch -/

namespace Reducer

/-- The turns as a reducer sees them: its own rows, else the stored ones. -/
def turnsNow (r : Reducer) : Table Int TurnRow := overlay r.backend.turns r.turns

/-- The operations as a reducer sees them. -/
def opsNow (r : Reducer) : Table OpKey OpRow := overlay r.backend.ops r.ops

/-- A reducer that has applied some events of a batch, after whatever batches were stored. -/
def Reachable (context : Context) (db : Projection) (events : List StoredEvent) (r : Reducer) :
    Prop :=
  Reached db ∧ Ascending db.state.projectedThrough events ∧
    events.foldlM Reducer.apply (Reducer.new db context) = some r

variable {db : Projection} {events : List StoredEvent} {r : Reducer}

/-- What a reducer sees is the timeline after its events. -/
theorem Reachable.eq (h : Reachable context db events r) :
    r.turnsNow = (events.foldl (Projection.step context) db).turns ∧
      r.opsNow = (events.foldl (Projection.step context) db).ops := by
  obtain ⟨hdb, hevents, hr⟩ := h
  obtain ⟨r', hr', hsim⟩ :=
    (Sim.fresh hdb.consistent context).applyAll hdb.consistent le_rfl hevents
  rw [hr] at hr'
  obtain rfl := Option.some.inj hr'
  unfold turnsNow opsNow
  rw [hsim.backend]
  exact ⟨hsim.turns, hsim.ops⟩

/-- What it would store is what it sees. -/
theorem Reachable.persisted (h : Reachable context db events r) :
    (persist db r.intoChanges).turns = r.turnsNow ∧ (persist db r.intoChanges).ops = r.opsNow := by
  obtain ⟨hdb, hevents, hr⟩ := h
  obtain ⟨r', hr', hsim⟩ :=
    (Sim.fresh hdb.consistent context).applyAll hdb.consistent le_rfl hevents
  rw [hr] at hr'
  obtain rfl := Option.some.inj hr'
  unfold turnsNow opsNow
  rw [hsim.backend, hsim.turns, hsim.ops, hsim.persist_eq]
  exact ⟨rfl, rfl⟩

end Reducer

/-- The rows of an event's changes: each is the row before, or carries a later offset. -/
def Moved (ops ops' : Table OpKey OpRow) : Prop :=
  ∀ (k : OpKey) (op : OpRow), ops[k]? = some op → ∃ op', ops'[k]? = some op' ∧
    op.changedAt ≤ op'.changedAt ∧ (op' ≠ op → op.changedAt < op'.changedAt)

/-- Operations are last changed no later than the last event. -/
theorem Between.changedAt_le {p : Projection} (h : Between (-1) bound {} p) {k : OpKey}
    (hk : p.ops[k]? = some op) : op.changedAt ≤ bound := by
  rcases h.ops k op hk with ⟨hnone, -⟩ | hnew
  · simp at hnone
  · exact hnew.2

theorem Between.moved {p p' : Projection} {lo hi : Int} (h : Between lo hi p p')
    (hle : ∀ (k : OpKey) (op : OpRow), p.ops[k]? = some op → op.changedAt ≤ lo) :
    Moved p.ops p'.ops := by
  intro k op hk
  obtain ⟨op', hk', -⟩ := h.kept k op hk
  refine ⟨op', hk', ?_⟩
  rcases h.ops k op' hk' with ⟨hsame, -⟩ | hnew
  · rw [hk] at hsame
    obtain rfl := Option.some.inj hsame
    exact ⟨le_rfl, fun hne => absurd rfl hne⟩
  · have hold := hle k op hk
    constructor
    · omega
    · intro _
      omega

/-- **The lifecycle of operations.** Whatever events are applied in whatever batches, at every
moment each operation is well and its failure noted on its turn; the next event moves the change
cursor of the operations it changes, and of no others. -/
theorem operation_lifecycle {db : Projection} {events : List StoredEvent} {r : Reducer}
    (h : Reducer.Reachable context db events r) :
    (∀ op ∈ rows r.opsNow, Lifecycle op ∧ Noted r.turnsNow op) ∧
      (∀ event, Ascending db.state.projectedThrough (events ++ [event]) →
        ∃ r', r.apply event = some r' ∧ Reducer.Reachable context db (events ++ [event]) r' ∧
          Moved r.opsNow r'.opsNow) ∧
      (persist db r.intoChanges).turns = r.turnsNow ∧
        (persist db r.intoChanges).ops = r.opsNow := by
  obtain ⟨hturns, hops⟩ := h.eq
  obtain ⟨hdb, hevents, hr⟩ := h
  have hlived := hdb.wellLived.steps hdb.consistent hevents context
  refine ⟨?_, ?_, Reducer.Reachable.persisted ⟨hdb, hevents, hr⟩⟩
  · intro op hop
    rw [hops] at hop
    rw [hturns]
    obtain ⟨k, hk⟩ := mem_rows.mp hop
    exact ⟨hlived.life k op hk, hlived.noted k op hk⟩
  · intro event hnext
    obtain ⟨r', hr', hsim⟩ :=
      (Sim.fresh hdb.consistent context).applyAll hdb.consistent le_rfl hnext
    have happly : r.apply event = some r' := by
      rw [List.foldlM_append, hr] at hr'
      simpa using hr'
    have hreach : Reducer.Reachable context db (events ++ [event]) r' := ⟨hdb, hnext, hr'⟩
    refine ⟨r', happly, hreach, ?_⟩
    rw [hops, hreach.eq.2, List.foldl_append]
    -- every change so far lies at or before the last event
    have hbefore := hdb.between_empty.trans
      (Between.steps hdb.consistent hevents context)
      hdb.between_empty.through (Between.lastOffset_ge hevents)
    obtain ⟨-, hlast⟩ := ascending_append.mp hnext
    have hfirst := (ascending_cons.mp hlast).1
    have hstep := Between.step (hdb.consistent.steps hevents context) context hfirst
    exact hstep.moved fun k op hk => hbefore.changedAt_le hk

theorem operation_lifecycle_session : ∃ r : Reducer,
    Reducer.Reachable plainContext {} (shortSession.take 2) r ∧
      ∀ op ∈ rows r.opsNow, Lifecycle op := by
  obtain ⟨r, hr, -⟩ := (Sim.fresh Reached.empty.consistent plainContext).applyAll
    Reached.empty.consistent le_rfl (show Ascending (-1) (shortSession.take 2) by decide)
  have hreach : Reducer.Reachable plainContext {} (shortSession.take 2) r :=
    ⟨.empty, by decide, hr⟩
  exact ⟨r, hreach, fun op hop => ((operation_lifecycle hreach).1 op hop).1⟩

end Sulion.Timeline
