import Sulion.Timeline.Counters

set_option autoImplicit false

/-! # Every event keeps the timeline consistent

Each change that `Projection.step` is made of keeps `Consistent`, so the step does
(`Consistent.step`): the new bound is the event's own offset. Changed operations are versions
of stored ones (`StoredCall`), which is what a fold over several of them carries along.
-/

namespace Sulion.Timeline

open Sulion.Rust Table

variable {context : Context} {bound bound' : Int} {p p' : Projection} {f : TurnRow → TurnRow}
  {t : Int} {op op' : OpRow} {event : StoredEvent}

/-! ## References -/

theorem Referring.mono (h : Referring p) (hturn : ∀ t, p.HasTurn t → p'.HasTurn t)
    (hitems : p'.items = p.items) (htouches : p'.touches = p.touches) (husage : p'.usage = p.usage)
    (hmain : p'.state.currentMain = p.state.currentMain)
    (hside : p'.state.currentSidechain = p.state.currentSidechain) : Referring p' where
  item := by
    rw [hitems]
    exact fun k item hk => hturn _ (h.item k item hk)
  touch := by
    rw [htouches]
    exact fun k touches hk => hturn _ (h.touch k touches hk)
  usage := by
    rw [husage]
    exact fun id usage hid => hturn _ (h.usage id usage hid)
  main := by
    rw [hmain]
    exact fun t ht => hturn _ (h.main t ht)
  sidechain := by
    rw [hside]
    exact fun t ht => hturn _ (h.sidechain t ht)

namespace Projection

theorem hasTurn_modifyTurn {t' : Int} : (p.modifyTurn t f).HasTurn t' ↔ p.HasTurn t' := by
  constructor
  · rintro ⟨row', hrow'⟩
    obtain ⟨row, hrow, -⟩ := lookup_modify_eq_some hrow'
    exact ⟨row, hrow⟩
  · rintro ⟨row, hrow⟩
    obtain ⟨row', hrow', -⟩ := exists_lookup_modify (k := t) (f := f) hrow
    exact ⟨row', hrow'⟩

/-- A version of the operation is stored under its key. -/
def StoredCall (p : Projection) (op : OpRow) : Prop :=
  ∃ old, p.ops[op.key]? = some old ∧ old.SameCall op

theorem storedCall_of_mem (hkeyed : Keyed OpRow.key p.ops) (h : op ∈ rows p.ops) :
    p.StoredCall op :=
  ⟨op, hkeyed.mem_rows.mp h, .refl op⟩

theorem StoredCall.sameCall (h : p.StoredCall op) (hsame : op.SameCall op') : p.StoredCall op' := by
  obtain ⟨old, hold, hsame'⟩ := h
  exact ⟨old, hsame.key_eq ▸ hold, hsame'.trans hsame⟩

theorem StoredCall.storeOp (h : p.StoredCall op) (h' : p.StoredCall op') (inputChanged : Bool) :
    (p.storeOp context op' inputChanged).StoredCall op := by
  obtain ⟨old, hold, hsame⟩ := h
  obtain ⟨old', hold', hsame'⟩ := h'
  rw [StoredCall]
  show ∃ stored, (p.ops.insert op'.key op')[op.key]? = some stored ∧ stored.SameCall op
  rw [lookup_insert]
  by_cases hkey : op'.key = op.key
  · rw [if_pos hkey]
    rw [hkey, hold] at hold'
    cases hold'
    refine ⟨op', rfl, ?_⟩
    unfold OpRow.SameCall at *
    grind
  · rw [if_neg hkey]
    exact ⟨old, hold, hsame⟩

end Projection

/-! ## Single changes -/

namespace Consistent

theorem mono (h : Consistent bound p) (hb : bound ≤ bound')
    (hb' : bound' ≤ p.state.projectedThrough) : Consistent bound' p where
  bound_le := hb'
  turns := h.turns.mono hb
  ops := h.ops.mono hb
  refs := h.refs

theorem modifyTurn (h : Consistent bound p) (hseed : TurnRow.KeepsSeed f)
    (hcounts : TurnRow.KeepsCounts f) : Consistent bound (p.modifyTurn t f) where
  bound_le := h.bound_le
  turns := by
    refine h.turns.modify hseed ?_ rfl rfl rfl
    rw [total_modify_of_eq _ p.turns t fun row => (hcounts row).1]
    exact h.turns.total
  ops := h.ops.modify fun row => (hcounts row).2
  refs := h.refs.mono (fun _ => Projection.hasTurn_modifyTurn.mpr) rfl rfl rfl rfl rfl

theorem addLinks (h : Consistent bound p) (links : Finset ChildLink) :
    Consistent bound (p.addLinks links) where
  bound_le := h.bound_le
  turns := h.turns
  ops := h.ops
  refs := h.refs.mono (fun _ ht => ht) rfl rfl rfl rfl rfl

theorem advance (h : Consistent bound p) (event : StoredEvent) :
    Consistent bound (p.advance event) where
  bound_le := h.bound_le.trans (le_max_left _ _)
  turns := h.turns.withState rfl rfl rfl rfl
  ops := h.ops
  refs := h.refs.mono (fun _ ht => ht) rfl rfl rfl rfl rfl

theorem hasTurn_of_stored (h : Consistent bound p) (hop : p.StoredCall op) :
    p.HasTurn op.turnId := by
  obtain ⟨old, hold, -⟩ := hop
  obtain ⟨row, hrow, -⟩ := (h.ops.exists_iff _ _).mp ⟨old, hold⟩
  exact ⟨row, hrow⟩

theorem storeOp (h : Consistent bound p) (hop : p.StoredCall op) (inputChanged : Bool) :
    Consistent bound (p.storeOp context op inputChanged) where
  bound_le := h.bound_le
  turns := h.turns
  ops := by
    obtain ⟨old, hold, hsame⟩ := hop
    exact h.ops.update hold hsame
  refs :=
    { item := h.refs.item
      usage := h.refs.usage
      main := h.refs.main
      sidechain := h.refs.sidechain
      touch := by
        intro k touches hk
        change (if inputChanged then _ else p.touches)[k]? = some touches at hk
        split at hk
        · rw [lookup_insert] at hk
          split at hk
          · rename_i heq
            subst heq
            exact h.hasTurn_of_stored hop
          · exact h.refs.touch k touches hk
        · exact h.refs.touch k touches hk }

theorem noteOwnerError (h : Consistent bound p) (op : OpRow) :
    Consistent bound (p.noteOwnerError op) :=
  h.modifyTurn (TurnRow.keepsSeed_noteError _) (TurnRow.keepsCounts_noteError _)

theorem addCall (h : Consistent bound p) (ht : p.HasTurn t) (hlow : t ≤ event.byteOffset)
    (hhigh : event.byteOffset ≤ bound) (tool : ToolUseView) :
    Consistent bound (p.addCall context t event tool) := by
  obtain ⟨row, hrow⟩ := ht
  have hcount : p.operationCount t = row.operationCount := by
    rw [Projection.operationCount, hrow]
    rfl
  rw [Projection.addCall, hcount]
  refine
    { bound_le := h.bound_le
      turns := ?_
      ops := ?_
      refs := ?_ }
  · refine h.turns.modify (TurnRow.keepsSeed_countCall tool) ?_ rfl rfl rfl
    show total TurnRow.eventCount (p.turns.modify t (TurnRow.countCall tool)) = _
    rw [total_modify_of_eq TurnRow.eventCount p.turns t (g := TurnRow.countCall tool) fun _ => rfl]
    exact h.turns.total
  · exact h.ops.call hrow (fun _ => rfl) rfl hlow hhigh
  · have hturn (t' : Int) : p.HasTurn t' → (p.modifyTurn t (TurnRow.countCall tool)).HasTurn t' :=
      Projection.hasTurn_modifyTurn.mpr
    refine
      { item := fun k item hk => hturn _ (h.refs.item k item hk)
        usage := fun id usage hid => hturn _ (h.refs.usage id usage hid)
        main := fun t' ht' => hturn _ (h.refs.main t' ht')
        sidechain := fun t' ht' => hturn _ (h.refs.sidechain t' ht')
        touch := fun k touches hk => ?_ }
    change (p.touches.insert _ _)[k]? = some touches at hk
    rw [lookup_insert] at hk
    split at hk
    · rename_i heq
      subst heq
      exact hturn _ ⟨row, hrow⟩
    · exact hturn _ (h.refs.touch k touches hk)

theorem countEvent (h : Consistent bound p) (ht : p.HasTurn t) (event : StoredEvent) :
    Consistent bound (p.countEvent t event) := by
  obtain ⟨row, hrow⟩ := ht
  refine
    { bound_le := h.bound_le
      turns := ?_
      ops := h.ops.modify (TurnRow.operationCount_countEvent event)
      refs := h.refs.mono (fun _ => Projection.hasTurn_modifyTurn.mpr) rfl rfl rfl rfl rfl }
  refine h.turns.modify (TurnRow.keepsSeed_countEvent event) ?_ rfl rfl rfl
  -- the turn's count and the session's go up together
  have hmod := total_modify TurnRow.eventCount hrow (TurnRow.countEvent event)
  rw [TurnRow.eventCount_countEvent, h.turns.total] at hmod
  show Table.total TurnRow.eventCount _ = p.state.totalEventCount + 1
  omega

theorem addItem (h : Consistent bound p) (ht : p.HasTurn t) (event : StoredEvent) :
    Consistent bound (p.addItem t event) := by
  unfold Projection.addItem
  split
  · rename_i item _
    refine { h with refs := { h.refs with item := fun k old hk => ?_ } }
    by_cases hkey : (t, event.byteOffset) = k
    · subst hkey
      exact ht
    · rw [lookup_mergeList_of_not_mem _ _ _ _ (by simpa using hkey)] at hk
      exact h.refs.item k old hk
  · exact h

theorem setTotals (h : Consistent bound p) (totals : Int × Int) :
    Consistent bound (p.setTotals t totals) := by
  have hmod : Consistent bound (p.modifyTurn t (TurnRow.setTotals totals)) :=
    h.modifyTurn (TurnRow.keepsSeed_setTotals totals) (TurnRow.keepsCounts_setTotals totals)
  exact
    { bound_le := hmod.bound_le
      turns := hmod.turns.withState rfl rfl rfl rfl
      ops := hmod.ops
      refs := hmod.refs.mono (fun _ ht => ht) rfl rfl rfl rfl rfl }

theorem withdraw (h : Consistent bound p) (owner : Int) (messageId : String) :
    Consistent bound (p.withdraw owner messageId) := by
  unfold Projection.withdraw
  split
  · split
    · exact h.modifyTurn (TurnRow.keepsSeed_subTokens _) (TurnRow.keepsCounts_subTokens _)
    · exact h
  · exact h

theorem hasTurn_usageOwner (ht : p.HasTurn t) (messageId : String) :
    p.HasTurn (p.usageOwner t messageId) := by
  unfold Projection.usageOwner
  split
  · split
    · rename_i hsome
      exact Option.isSome_iff_exists.mp hsome
    · exact ht
  · exact ht

theorem hasTurn_withdraw {owner : Int} {messageId : String} :
    (p.withdraw owner messageId).HasTurn t ↔ p.HasTurn t := by
  unfold Projection.withdraw
  split
  · split
    · exact Projection.hasTurn_modifyTurn
    · exact Iff.rfl
  · exact Iff.rfl

theorem usage_withdraw (owner : Int) (messageId : String) :
    (p.withdraw owner messageId).usage = p.usage := by
  unfold Projection.withdraw
  split
  · split <;> rfl
  · rfl

theorem charge (h : Consistent bound p) (ht : p.HasTurn t) (messageId : String)
    (tokens : Int × Int) : Consistent bound (p.charge t messageId tokens) := by
  have hcharged := (h.withdraw (p.usageOwner t messageId) messageId).modifyTurn
    (t := p.usageOwner t messageId) (TurnRow.keepsSeed_addTokens tokens)
    (TurnRow.keepsCounts_addTokens tokens)
  refine { hcharged with refs := { hcharged.refs with usage := fun id usage hid => ?_ } }
  change (Std.ExtTreeMap.insert (p.withdraw _ messageId).usage messageId _)[id]? = some usage at hid
  rw [lookup_insert] at hid
  split at hid
  · cases hid
    exact Projection.hasTurn_modifyTurn.mpr (hasTurn_withdraw.mpr (hasTurn_usageOwner ht messageId))
  · exact hcharged.refs.usage id usage hid

theorem openTurn (h : Consistent bound p) (hfirst : bound < event.byteOffset)
    (hthrough : event.byteOffset ≤ p.state.projectedThrough) (prompt sidechain : Bool) :
    Consistent event.byteOffset (p.openTurn event prompt sidechain) := by
  have hfresh : p.turns[event.byteOffset]? = none := by
    cases hrow : p.turns[event.byteOffset]? with
    | none => rfl
    | some row =>
        have := h.turns.le_bound _ _ hrow
        omega
  have hnew : (p.openTurn event prompt sidechain).HasTurn event.byteOffset :=
    ⟨_, lookup_insert_self ..⟩
  have hold (t : Int) : p.HasTurn t → (p.openTurn event prompt sidechain).HasTurn t := by
    rintro ⟨row, hrow⟩
    have hne : event.byteOffset ≠ t := by
      rintro rfl
      rw [hfresh] at hrow
      cases hrow
    exact ⟨row, (lookup_insert_ne p.turns _ hne).trans hrow⟩
  refine
    { bound_le := hthrough
      turns := h.turns.openTurn event prompt sidechain hfirst
      ops := (h.ops.openTurn hfresh rfl).mono hfirst.le
      refs :=
        { item := fun k item hk => hold _ (h.refs.item k item hk)
          touch := fun k touches hk => hold _ (h.refs.touch k touches hk)
          usage := fun id usage hid => hold _ (h.refs.usage id usage hid)
          main := fun t ht => ?_
          sidechain := fun t ht => ?_ } }
  · change (if sidechain then p.state.currentMain else some event.byteOffset) = some t at ht
    split at ht
    · exact hold t (h.refs.main t ht)
    · cases ht
      exact hnew
  · change (if sidechain then some event.byteOffset else p.state.currentSidechain) = some t at ht
    split at ht
    · cases ht
      exact hnew
    · exact hold t (h.refs.sidechain t ht)

end Consistent

/-! ## Results and evidence -/

namespace Projection

theorem mem_opsByPair {pairId : String} {before : Int} :
    op ∈ p.opsByPair pairId before ↔
      op ∈ rows p.ops ∧ op.pairId = pairId ∧ op.callOffset < before := by
  rw [opsByPair, List.mem_filter]
  simp

theorem mem_of_latestOp {pairId : String} {before : Int} (h : p.latestOp pairId before = some op) :
    op ∈ rows p.ops :=
  (mem_opsByPair.mp (maxByKey_eq_some_iff.mp h).mem).1

theorem mem_of_mem_exactOwners {evidence : Json} (h : op ∈ p.exactOwners event evidence) :
    op ∈ rows p.ops := by
  unfold exactOwners at h
  split at h
  · exact (mem_opsByPair.mp ((List.mem_insertionSort _).mp h)).1
  · cases h

theorem mem_of_mem_owners {evidence : Json} (h : op ∈ p.owners event evidence) :
    op ∈ rows p.ops := by
  unfold owners at h
  split at h
  · exact List.mem_of_mem_filter h
  · exact mem_of_mem_exactOwners h

theorem turns_closeCells (wait : OpRow) (block : Block) :
    (p.closeCells context wait block event).turns = p.turns := by
  unfold closeCells
  split
  · rfl
  · rename_i cell _
    generalize p.runningOps cell wait.key = running
    induction running generalizing p with
    | nil => rfl
    | cons op running ih => exact ih (p := p.storeOp context (closeCell event op) false)

theorem hasTurn_landResult {block : Block} :
    (p.landResult context op block event).HasTurn t ↔ p.HasTurn t := by
  unfold landResult noteOwnerError
  rw [hasTurn_modifyTurn]
  show (∃ row, (p.closeCells context _ block event).turns[t]? = some row) ↔ _
  rw [turns_closeCells]
  rfl

theorem hasTurn_addResult {t' : Int} {block : Block} :
    (p.addResult context t' event block).HasTurn t ↔ p.HasTurn t := by
  have hflag : (if block.isError.getD false then p.modifyTurn t' (TurnRow.noteError true)
      else p).HasTurn t ↔ p.HasTurn t := by
    split
    · exact hasTurn_modifyTurn
    · exact Iff.rfl
  unfold addResult
  simp only
  split
  · exact hflag
  · exact hasTurn_landResult.trans hflag

end Projection

namespace Consistent

/-- Storing versions of stored calls, one after the other. -/
theorem foldl_storeOp {g : OpRow → OpRow} (hg : ∀ op : OpRow, op.SameCall (g op)) {l : List OpRow}
    (h : Consistent bound p) (hl : ∀ op ∈ l, p.StoredCall op) :
    Consistent bound (l.foldl (fun p op => p.storeOp context (g op) false) p) ∧
      ∀ op, p.StoredCall op →
        (l.foldl (fun p op => p.storeOp context (g op) false) p).StoredCall op := by
  induction l generalizing p with
  | nil => exact ⟨h, fun _ hop => hop⟩
  | cons op l ih =>
      have hop : p.StoredCall (g op) := (hl op (by simp)).sameCall (hg op)
      have hnext : Consistent bound (p.storeOp context (g op) false) := h.storeOp hop false
      have hrest := ih hnext fun op' hop' =>
        (hl op' (by simp [hop'])).storeOp hop false
      exact ⟨hrest.1, fun op' hop' => hrest.2 op' (hop'.storeOp hop false)⟩

theorem closeCells (h : Consistent bound p) (context : Context) (event : StoredEvent) (wait : OpRow)
    (block : Block) :
    Consistent bound (p.closeCells context wait block event) ∧
      ∀ op, p.StoredCall op → (p.closeCells context wait block event).StoredCall op := by
  unfold Projection.closeCells
  split
  · exact ⟨h, fun _ hop => hop⟩
  · refine h.foldl_storeOp (sameCall_closeCell event) fun op hop => ?_
    exact Projection.storedCall_of_mem h.ops.keyed (List.mem_of_mem_filter hop)

theorem landResult (h : Consistent bound p) (hop : p.StoredCall op) (block : Block) :
    Consistent bound (p.landResult context op block event) := by
  obtain ⟨hclosed, hkept⟩ := h.closeCells context event (setResult op block event) block
  have hstored := hkept _ (hop.sameCall (sameCall_setResult op block event))
  exact (hclosed.storeOp hstored false).noteOwnerError _

theorem addResult (h : Consistent bound p) (t : Int) (block : Block) :
    Consistent bound (p.addResult context t event block) := by
  have hflag : Consistent bound
      (if block.isError.getD false then p.modifyTurn t (TurnRow.noteError true) else p) := by
    split
    · exact h.modifyTurn (TurnRow.keepsSeed_noteError true) (TurnRow.keepsCounts_noteError true)
    · exact h
  unfold Projection.addResult
  simp only
  split
  · exact hflag
  · rename_i op hfound
    obtain ⟨pairId, -, hop⟩ := Option.bind_eq_some_iff.mp hfound
    exact hflag.landResult
      (Projection.storedCall_of_mem hflag.ops.keyed (Projection.mem_of_latestOp hop)) block

theorem foldInto (h : Consistent bound p) (hop : p.StoredCall op) (evidence : Json × Bool) :
    Consistent bound (p.foldInto context event evidence op) :=
  (h.storeOp (hop.sameCall (sameCall_foldEvidence event _ _ op)) true).noteOwnerError _

theorem addEvidence {acc : Projection × StoredEvent} (h : Consistent bound acc.1)
    (evidence : Json × Bool) :
    Consistent bound (Projection.addEvidence context event acc evidence).1 := by
  unfold Projection.addEvidence
  split
  · rename_i op howner
    have hmem : op ∈ acc.1.owners event evidence.1 := by
      rw [howner]
      exact List.mem_singleton_self op
    exact h.foldInto (Projection.storedCall_of_mem h.ops.keyed
      (Projection.mem_of_mem_owners hmem)) evidence
  · exact h

theorem correlate (h : Consistent bound p) (context : Context) (event : StoredEvent) :
    Consistent bound (p.correlate context event).1 := by
  unfold Projection.correlate
  generalize evidenceIn event = evidence
  have hfold (acc : Projection × StoredEvent) (hacc : Consistent bound acc.1) :
      Consistent bound (evidence.foldl (Projection.addEvidence context event) acc).1 := by
    induction evidence generalizing acc with
    | nil => exact hacc
    | cons e evidence ih => exact ih _ (hacc.addEvidence e)
  exact hfold (p, event) h

/-! ## Whole events -/

theorem addCalls (h : Consistent bound p) (context : Context) (ht : p.HasTurn t)
    (hlow : t ≤ event.byteOffset)
    (hhigh : event.byteOffset ≤ bound) (tools : List ToolUseView) :
    Consistent bound (tools.foldl (Projection.addCall context t event) p) ∧
      (tools.foldl (Projection.addCall context t event) p).HasTurn t := by
  induction tools generalizing p with
  | nil => exact ⟨h, ht⟩
  | cons tool tools ih =>
      exact ih (h.addCall ht hlow hhigh tool) (Projection.hasTurn_modifyTurn.mpr ht)

theorem addReply (h : Consistent bound p) (context : Context) (ht : p.HasTurn t)
    (hlow : t ≤ event.byteOffset)
    (hhigh : event.byteOffset ≤ bound) :
    Consistent bound (p.addReply context t event) ∧ (p.addReply context t event).HasTurn t := by
  unfold Projection.addReply
  split
  · obtain ⟨hcalls, hturn⟩ := h.addCalls context ht hlow hhigh (toolUsesIn event)
    exact ⟨hcalls.modifyTurn (TurnRow.keepsSeed_noteReply event)
        (TurnRow.keepsCounts_noteReply event), Projection.hasTurn_modifyTurn.mpr hturn⟩
  · exact ⟨h, ht⟩

theorem addResults (h : Consistent bound p) (context : Context) (event : StoredEvent)
    (ht : p.HasTurn t) :
    Consistent bound (p.addResults context t event) ∧
      (p.addResults context t event).HasTurn t := by
  unfold Projection.addResults
  split
  · generalize event.blocks.filter (fun block => block.kind = .toolResult) = blocks
    induction blocks generalizing p with
    | nil => exact ⟨h, ht⟩
    | cons block blocks ih =>
        exact ih (h.addResult t block) (Projection.hasTurn_addResult.mpr ht)
  · exact ⟨h, ht⟩

theorem addUsage (h : Consistent bound p) (ht : p.HasTurn t) (event : StoredEvent) :
    Consistent bound (p.addUsage t event) := by
  unfold Projection.addUsage
  split
  · exact h
  · split
    · exact h.setTotals _
    · split
      · exact h.modifyTurn (TurnRow.keepsSeed_addTokens _) (TurnRow.keepsCounts_addTokens _)
      · exact h.charge ht _ _

theorem append (h : Consistent bound p) (ht : p.HasTurn t) (hlow : t ≤ event.byteOffset)
    (hhigh : event.byteOffset ≤ bound) : Consistent bound (p.append context t event) := by
  have hcount := h.countEvent ht event
  have hturn : (p.countEvent t event).HasTurn t := Projection.hasTurn_modifyTurn.mpr ht
  obtain ⟨hreply, hturn⟩ := hcount.addReply context hturn hlow hhigh
  obtain ⟨hresults, hturn⟩ := hreply.addResults context event hturn
  have hitem := hresults.addItem hturn event
  refine hitem.addUsage ?_ event
  unfold Projection.addItem
  split <;> exact hturn

/-- **A new turn for the event** keeps the timeline consistent, up to the event's offset. -/
theorem openFor (h : Consistent bound p) (context : Context) (hfirst : bound < event.byteOffset)
    (hthrough : event.byteOffset ≤ p.state.projectedThrough) :
    Consistent event.byteOffset (p.openFor context event) ∧
      (p.openFor context event).HasTurn event.byteOffset := by
  have hopen := h.openTurn hfirst hthrough (isRealUserPrompt event) event.isSidechain
  have hturn : (p.openTurn event (isRealUserPrompt event) event.isSidechain).HasTurn
      event.byteOffset := ⟨_, lookup_insert_self ..⟩
  unfold Projection.openFor
  simp only
  split
  · exact ⟨hopen.addLinks _, hturn⟩
  · exact ⟨hopen, hturn⟩

theorem hasTurn_of_place (h : Consistent bound p)
    (hplace : Projection.place p.state event = .into t) : p.HasTurn t := by
  unfold Projection.place at hplace
  split at hplace
  · cases hplace
  · split at hplace
    · rename_i turnId hopen
      cases hplace
      split at hopen
      · exact h.refs.sidechain t hopen
      · exact h.refs.main t hopen
    · split at hplace <;> cases hplace

theorem settle (h : Consistent bound p) (hfirst : bound < event.byteOffset)
    (hthrough : event.byteOffset ≤ p.state.projectedThrough) :
    Consistent event.byteOffset (p.settle context event) := by
  unfold Projection.settle
  split
  · exact h.mono hfirst.le hthrough
  · rename_i t hplace
    have ht := h.hasTurn_of_place hplace
    obtain ⟨row, hrow⟩ := ht
    have hlow : t ≤ event.byteOffset := (h.turns.le_bound t row hrow).trans hfirst.le
    exact (h.mono hfirst.le hthrough).append ⟨row, hrow⟩ hlow le_rfl
  · obtain ⟨hopen, hturn⟩ := h.openFor context hfirst hthrough
    split
    · exact hopen
    · exact hopen.append hturn le_rfl le_rfl

end Consistent

/-! ## Correlated events -/

/-- What folding an event's evidence away leaves alone on the event. -/
def SameReceipt (e e' : StoredEvent) : Prop :=
  e'.byteOffset = e.byteOffset ∧ e'.agent = e.agent ∧ e'.isSidechain = e.isSidechain ∧
    e'.usageJson = e.usageJson ∧ e'.usageMessageId = e.usageMessageId

theorem sameReceipt_correlate (context : Context) (p : Projection) (event : StoredEvent) :
    SameReceipt event (p.correlate context event).2 := by
  unfold Projection.correlate
  generalize evidenceIn event = evidence
  have hfold (acc : Projection × StoredEvent) (hacc : SameReceipt event acc.2) :
      SameReceipt event (evidence.foldl (Projection.addEvidence context event) acc).2 := by
    induction evidence generalizing acc with
    | nil => exact hacc
    | cons e evidence ih =>
        refine ih _ ?_
        unfold Projection.addEvidence
        split <;> exact hacc
  exact hfold (p, event) ⟨rfl, rfl, rfl, rfl, rfl⟩

theorem state_correlate (context : Context) (p : Projection) (event : StoredEvent) :
    (p.correlate context event).1.state = p.state := by
  unfold Projection.correlate
  generalize evidenceIn event = evidence
  have hfold (acc : Projection × StoredEvent) (hacc : acc.1.state = p.state) :
      (evidence.foldl (Projection.addEvidence context event) acc).1.state = p.state := by
    induction evidence generalizing acc with
    | nil => exact hacc
    | cons e evidence ih =>
        refine ih _ ?_
        unfold Projection.addEvidence
        split <;> exact hacc
  exact hfold (p, event) rfl

/-- **One event keeps the timeline consistent**, with its own offset as the new bound. -/
theorem Consistent.step (h : Consistent bound p) (hfirst : bound < event.byteOffset) :
    Consistent event.byteOffset (p.step context event) := by
  have hadvance := h.advance event
  have hthrough : event.byteOffset ≤ (p.advance event).state.projectedThrough := le_max_right _ _
  unfold Projection.step
  simp only
  split
  · exact hadvance.mono hfirst.le hthrough
  · have hsame := sameReceipt_correlate context (p.advance event) event
    have hstate := state_correlate context (p.advance event) event
    have hlinked := (hadvance.correlate context event).addLinks
      (eventLinks context.parseUuid context.sessionUuid context.childOf
        ((p.advance event).correlate context event).2)
    rw [← hsame.1] at hfirst hthrough
    rw [← hstate] at hthrough
    rw [← hsame.1]
    split
    · exact hlinked.mono hfirst.le hthrough
    · exact hlinked.settle hfirst hthrough

end Sulion.Timeline
