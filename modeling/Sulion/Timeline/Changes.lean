import Sulion.Timeline.Batches

set_option autoImplicit false

/-! # What a batch leaves alone

`Between lo hi p p'` says how the tables `p'` differ from `p` after events with offsets above
`lo` and up to `hi`: an operation that is not the same, or whose file touches are not, was
changed at such an offset, an item that was not there belongs to such an event, and nothing
is gone.
-/

namespace Sulion.Timeline

open Sulion.Rust Table

variable {context : Context} {lo mid hi bound : Int} {p p' p'' : Projection}
  {f : TurnRow → TurnRow} {t : Int} {op : OpRow} {event : StoredEvent}

structure Between (lo hi : Int) (p p' : Projection) : Prop where
  ops : ∀ (k : OpKey) (op : OpRow), p'.ops[k]? = some op →
    (p.ops[k]? = some op ∧ p'.touches[k]? = p.touches[k]?) ∨
      (lo < op.changedAt ∧ op.changedAt ≤ hi)
  kept : ∀ (k : OpKey) (op : OpRow), p.ops[k]? = some op →
    ∃ op', p'.ops[k]? = some op' ∧ op.SameCall op'
  items : ∀ (k : Int × Int) (item : TimelineChunk), p'.items[k]? = some item →
    p.items[k]? = some item ∨ (lo < k.2 ∧ k.2 ≤ hi)
  items_kept : ∀ (k : Int × Int) (item : TimelineChunk), p.items[k]? = some item →
    p'.items[k]? = some item
  turns : ∀ t, p.HasTurn t → p'.HasTurn t
  through : p.state.projectedThrough ≤ p'.state.projectedThrough

namespace Between

theorem refl (p : Projection) : Between lo hi p p where
  ops := fun _ _ hk => Or.inl ⟨hk, rfl⟩
  kept := fun _ op hk => ⟨op, hk, .refl op⟩
  items := fun _ _ hk => Or.inl hk
  items_kept := fun _ _ hk => hk
  turns := fun _ ht => ht
  through := le_rfl

/-- Events up to `mid`, then events after it. -/
theorem trans (h : Between lo mid p p') (h' : Between mid hi p' p'') (hlo : lo ≤ mid)
    (hhi : mid ≤ hi) : Between lo hi p p'' where
  ops := by
    intro k op hk
    rcases h'.ops k op hk with ⟨hk', htouches⟩ | hnew
    · rcases h.ops k op hk' with ⟨hk, htouches'⟩ | hnew
      · exact Or.inl ⟨hk, htouches.trans htouches'⟩
      · exact Or.inr ⟨hnew.1, hnew.2.trans hhi⟩
    · exact Or.inr ⟨hlo.trans_lt hnew.1, hnew.2⟩
  kept := by
    intro k op hk
    obtain ⟨op', hk', hsame⟩ := h.kept k op hk
    obtain ⟨op'', hk'', hsame'⟩ := h'.kept k op' hk'
    exact ⟨op'', hk'', hsame.trans hsame'⟩
  items := by
    intro k item hk
    rcases h'.items k item hk with hk' | hnew
    · rcases h.items k item hk' with hk | hnew
      · exact Or.inl hk
      · exact Or.inr ⟨hnew.1, hnew.2.trans hhi⟩
    · exact Or.inr ⟨hlo.trans_lt hnew.1, hnew.2⟩
  items_kept := fun k item hk => h'.items_kept k item (h.items_kept k item hk)
  turns := fun t ht => h'.turns t (h.turns t ht)
  through := h.through.trans h'.through

/-- Two changes of the same events. -/
theorem comp (h : Between lo hi p p') (h' : Between lo hi p' p'') : Between lo hi p p'' where
  ops := by
    intro k op hk
    rcases h'.ops k op hk with ⟨hk', htouches⟩ | hnew
    · rcases h.ops k op hk' with ⟨hk, htouches'⟩ | hnew
      · exact Or.inl ⟨hk, htouches.trans htouches'⟩
      · exact Or.inr hnew
    · exact Or.inr hnew
  kept := by
    intro k op hk
    obtain ⟨op', hk', hsame⟩ := h.kept k op hk
    obtain ⟨op'', hk'', hsame'⟩ := h'.kept k op' hk'
    exact ⟨op'', hk'', hsame.trans hsame'⟩
  items := by
    intro k item hk
    rcases h'.items k item hk with hk' | hnew
    · exact h.items k item hk'
    · exact Or.inr hnew
  items_kept := fun k item hk => h'.items_kept k item (h.items_kept k item hk)
  turns := fun t ht => h'.turns t (h.turns t ht)
  through := h.through.trans h'.through

/-! ## Single changes -/

/-- Operations, file touches and items are the same. -/
theorem of_eq (hops : p'.ops = p.ops) (htouches : p'.touches = p.touches)
    (hitems : p'.items = p.items) (hturns : ∀ t, p.HasTurn t → p'.HasTurn t)
    (hthrough : p.state.projectedThrough ≤ p'.state.projectedThrough) : Between lo hi p p' where
  ops := by
    rw [hops, htouches]
    exact fun _ _ hk => Or.inl ⟨hk, rfl⟩
  kept := by
    rw [hops]
    exact fun _ op hk => ⟨op, hk, .refl op⟩
  items := by
    rw [hitems]
    exact fun _ _ hk => Or.inl hk
  items_kept := by
    rw [hitems]
    exact fun _ _ hk => hk
  turns := hturns
  through := hthrough

theorem modifyTurn (t : Int) (f : TurnRow → TurnRow) : Between lo hi p (p.modifyTurn t f) :=
  of_eq rfl rfl rfl (fun _ => Projection.hasTurn_modifyTurn.mpr) le_rfl

theorem noteOwnerError (op : OpRow) : Between lo hi p (p.noteOwnerError op) :=
  modifyTurn op.turnId _

theorem countEvent (t : Int) (event : StoredEvent) : Between lo hi p (p.countEvent t event) :=
  of_eq rfl rfl rfl (fun _ => Projection.hasTurn_modifyTurn.mpr) le_rfl

theorem addLinks (links : Finset ChildLink) : Between lo hi p (p.addLinks links) :=
  of_eq rfl rfl rfl (fun _ ht => ht) le_rfl

theorem advance (event : StoredEvent) : Between lo hi p (p.advance event) :=
  of_eq rfl rfl rfl (fun _ ht => ht) (le_max_left _ _)

/-- Storing a version of a call that is there, or a new call. -/
theorem storeOp (context : Context)
    (hsame : ∀ old : OpRow, p.ops[op.key]? = some old → old.SameCall op)
    (hlo : lo < op.changedAt) (hhi : op.changedAt ≤ hi) (inputChanged : Bool) :
    Between lo hi p (p.storeOp context op inputChanged) where
  ops := by
    intro k op' hk
    change (p.ops.insert op.key op)[k]? = some op' at hk
    rw [lookup_insert] at hk
    split at hk
    · cases hk
      exact Or.inr ⟨hlo, hhi⟩
    · rename_i hne
      refine Or.inl ⟨hk, ?_⟩
      show (if inputChanged then p.touches.insert op.key _ else p.touches)[k]? = p.touches[k]?
      split
      · exact lookup_insert_ne _ _ hne
      · rfl
  kept := by
    intro k old hk
    show ∃ op', (p.ops.insert op.key op)[k]? = some op' ∧ old.SameCall op'
    rw [lookup_insert]
    split
    · rename_i heq
      subst heq
      exact ⟨op, rfl, hsame old hk⟩
    · exact ⟨old, hk, .refl old⟩
  items := fun _ _ hk => Or.inl hk
  items_kept := fun _ _ hk => hk
  turns := fun _ ht => ht
  through := le_rfl

theorem storeStored (context : Context) (hop : p.StoredCall op) (hlo : lo < op.changedAt)
    (hhi : op.changedAt ≤ hi) (inputChanged : Bool) :
    Between lo hi p (p.storeOp context op inputChanged) := by
  obtain ⟨stored, hstored, hsame⟩ := hop
  refine storeOp context (fun old hold => ?_) hlo hhi inputChanged
  rw [hstored] at hold
  cases hold
  exact hsame

theorem addItem (t : Int) (hlo : lo < event.byteOffset) (hhi : event.byteOffset ≤ hi) :
    Between lo hi p (p.addItem t event) := by
  unfold Projection.addItem
  cases visibleItem event with
  | none => exact refl p
  | some item =>
      refine { refl p with items := fun k chunk hk => ?_, items_kept := fun k chunk hk => ?_ }
      · by_cases hkey : (t, event.byteOffset) = k
        · subst hkey
          exact Or.inr ⟨hlo, hhi⟩
        · change (mergeList _ p.items [((t, event.byteOffset), item)])[k]? = some chunk at hk
          rw [lookup_mergeList_of_not_mem _ _ _ _ (by simpa using hkey)] at hk
          exact Or.inl hk
      · -- an item that is there stays
        show (mergeList _ p.items [((t, event.byteOffset), item)])[k]? = some chunk
        by_cases hkey : (t, event.byteOffset) = k
        · subst hkey
          rw [lookup_mergeList_of_mem _ _ _ (List.pairwise_singleton _ _)
            (List.mem_singleton_self _), hk]
          rfl
        · rw [lookup_mergeList_of_not_mem _ _ _ _ (by simpa using hkey)]
          exact hk

/-! ## Calls, results and evidence -/

theorem addCall (hc : Consistent bound p) (hlo : lo < event.byteOffset)
    (hhi : event.byteOffset ≤ hi) (tool : ToolUseView) :
    Between lo hi p (p.addCall context t event tool) := by
  refine (modifyTurn t (TurnRow.countCall tool)).comp (storeOp context ?_ hlo hhi true)
  -- the number of a new call is not taken
  intro old hold
  obtain ⟨row, hrow, hlt⟩ := (hc.ops.exists_iff t (p.operationCount t)).mp ⟨old, hold⟩
  rw [Projection.operationCount, hrow] at hlt
  exact absurd hlt (lt_irrefl _)

theorem addReply (hc : Consistent bound p) (context : Context) (ht : p.HasTurn t)
    (hlow : t ≤ event.byteOffset) (hhigh : event.byteOffset ≤ bound)
    (hlo : lo < event.byteOffset) (hhi : event.byteOffset ≤ hi) :
    Between lo hi p (p.addReply context t event) := by
  unfold Projection.addReply
  split
  · refine Between.comp ?_ (modifyTurn t (TurnRow.noteReply event))
    generalize toolUsesIn event = tools
    induction tools generalizing p with
    | nil => exact refl p
    | cons tool tools ih =>
        have hnext : Consistent bound (p.addCall context t event tool) :=
          hc.addCall ht hlow hhigh tool
        exact (addCall hc hlo hhi tool).comp (ih hnext (Projection.hasTurn_modifyTurn.mpr ht))
  · exact refl p

theorem closeCells (hc : Consistent bound p) (context : Context) (wait : OpRow) (block : Block)
    (hlo : lo < event.byteOffset) (hhi : event.byteOffset ≤ hi) :
    Between lo hi p (p.closeCells context wait block event) := by
  unfold Projection.closeCells
  split
  · exact refl p
  · rename_i cell _
    have hstored : ∀ op ∈ p.runningOps cell wait.key, p.StoredCall op := fun op hop =>
      Projection.storedCall_of_mem hc.ops.keyed (List.mem_of_mem_filter hop)
    generalize p.runningOps cell wait.key = running at hstored
    induction running generalizing p with
    | nil => exact refl p
    | cons op running ih =>
        have hop : p.StoredCall (closeCell event op) :=
          (hstored op List.mem_cons_self).sameCall (sameCall_closeCell event op)
        refine (storeStored context hop hlo hhi false).comp (ih (hc.storeOp hop false) ?_)
        exact fun op' hop' => (hstored op' (List.mem_cons_of_mem _ hop')).storeOp hop false

theorem landResult (hc : Consistent bound p) (hop : p.StoredCall op) (block : Block)
    (hlo : lo < event.byteOffset) (hhi : event.byteOffset ≤ hi) :
    Between lo hi p (p.landResult context op block event) := by
  obtain ⟨-, hkept⟩ := hc.closeCells context event (setResult op block event) block
  have hstored := hkept _ (hop.sameCall (sameCall_setResult op block event))
  have hclosed := closeCells hc context (setResult op block event) block hlo hhi
  exact hclosed.comp ((storeStored context hstored hlo hhi false).comp (noteOwnerError _))

theorem addResult (hc : Consistent bound p) (t : Int) (block : Block)
    (hlo : lo < event.byteOffset) (hhi : event.byteOffset ≤ hi) :
    Between lo hi p (p.addResult context t event block) := by
  have hflag : Between lo hi p
        (if block.isError.getD false then p.modifyTurn t (TurnRow.noteError true) else p) ∧
      Consistent bound
        (if block.isError.getD false then p.modifyTurn t (TurnRow.noteError true) else p) := by
    split
    · exact ⟨modifyTurn t _,
        hc.modifyTurn (TurnRow.keepsSeed_noteError true) (TurnRow.keepsCounts_noteError true)⟩
    · exact ⟨refl p, hc⟩
  unfold Projection.addResult
  simp only
  split
  · exact hflag.1
  · rename_i op hfound
    obtain ⟨pairId, -, hop⟩ := Option.bind_eq_some_iff.mp hfound
    have hstored := Projection.storedCall_of_mem hflag.2.ops.keyed (Projection.mem_of_latestOp hop)
    exact hflag.1.comp (landResult hflag.2 hstored block hlo hhi)

theorem addResults (hc : Consistent bound p) (context : Context) (t : Int)
    (hlo : lo < event.byteOffset) (hhi : event.byteOffset ≤ hi) :
    Between lo hi p (p.addResults context t event) := by
  unfold Projection.addResults
  split
  · generalize event.blocks.filter (fun block => block.kind = .toolResult) = blocks
    induction blocks generalizing p with
    | nil => exact refl p
    | cons block blocks ih =>
        exact (addResult hc t block hlo hhi).comp (ih (hc.addResult t block))
  · exact refl p

theorem correlate (hc : Consistent bound p) (context : Context) (hlo : lo < event.byteOffset)
    (hhi : event.byteOffset ≤ hi) : Between lo hi p (p.correlate context event).1 := by
  unfold Projection.correlate
  generalize evidenceIn event = evidence
  have hfold (acc : Projection × StoredEvent) (hc : Consistent bound acc.1)
      (hacc : Between lo hi p acc.1) :
      Between lo hi p (evidence.foldl (Projection.addEvidence context event) acc).1 := by
    induction evidence generalizing acc with
    | nil => exact hacc
    | cons e evidence ih =>
        refine ih _ (hc.addEvidence e) (hacc.comp ?_)
        unfold Projection.addEvidence
        split
        · rename_i op howner
          have hmem : op ∈ acc.1.owners event e.1 := by
            rw [howner]
            exact List.mem_singleton_self op
          have hstored := (Projection.storedCall_of_mem hc.ops.keyed
            (Projection.mem_of_mem_owners hmem)).sameCall (sameCall_foldEvidence event e.1 e.2 op)
          exact (storeStored context hstored hlo hhi true).comp (noteOwnerError _)
        · exact refl acc.1
  exact hfold (p, event) hc (refl p)

/-! ## Events -/

theorem addUsage (t : Int) (event : StoredEvent) : Between lo hi p (p.addUsage t event) := by
  have hwithdraw (p : Projection) (owner : Int) (messageId : String) :
      Between lo hi p (p.withdraw owner messageId) := by
    unfold Projection.withdraw
    split
    · split
      · exact modifyTurn owner _
      · exact refl p
    · exact refl p
  unfold Projection.addUsage
  cases event.usageJson with
  | none => exact refl p
  | some usage =>
      simp only
      split
      · exact of_eq rfl rfl rfl (fun _ => Projection.hasTurn_modifyTurn.mpr) le_rfl
      · cases event.usageMessageId with
        | none => exact modifyTurn t _
        | some messageId =>
            have hcharged := (hwithdraw p (p.usageOwner t messageId) messageId).comp
              (modifyTurn (p.usageOwner t messageId) (TurnRow.addTokens (claudeTokens usage)))
            exact hcharged.comp (of_eq rfl rfl rfl (fun _ ht => ht) le_rfl)

theorem append (hc : Consistent bound p) (ht : p.HasTurn t) (hlow : t ≤ event.byteOffset)
    (hhigh : event.byteOffset ≤ bound) (hlo : lo < event.byteOffset)
    (hhi : event.byteOffset ≤ hi) : Between lo hi p (p.append context t event) := by
  have hcounted := hc.countEvent ht event
  have hturn : (p.countEvent t event).HasTurn t := Projection.hasTurn_modifyTurn.mpr ht
  obtain ⟨hreplied, hturn'⟩ := hcounted.addReply context hturn hlow hhigh
  have hcount : Between lo hi p (p.countEvent t event) := countEvent t event
  have hreply := addReply hcounted context hturn hlow hhigh hlo hhi
  have hresults := addResults hreplied context t hlo hhi
  exact hcount.comp (hreply.comp (hresults.comp ((addItem t hlo hhi).comp (addUsage t event))))

theorem openFor (hfresh : p.turns[event.byteOffset]? = none) (context : Context) :
    Between lo hi p (p.openFor context event) := by
  have hopen : Between lo hi p
      (p.openTurn event (isRealUserPrompt event) event.isSidechain) := by
    refine of_eq rfl rfl rfl (fun t ht => ?_) le_rfl
    obtain ⟨row, hrow⟩ := ht
    have hne : event.byteOffset ≠ t := by
      rintro rfl
      rw [hfresh] at hrow
      cases hrow
    exact ⟨row, (lookup_insert_ne p.turns _ hne).trans hrow⟩
  unfold Projection.openFor
  simp only
  split
  · exact hopen.comp (addLinks _)
  · exact hopen

theorem settle (hc : Consistent bound p) (context : Context) (hfirst : bound < event.byteOffset)
    (hthrough : event.byteOffset ≤ p.state.projectedThrough) (hlo : lo < event.byteOffset)
    (hhi : event.byteOffset ≤ hi) : Between lo hi p (p.settle context event) := by
  unfold Projection.settle
  split
  · exact refl p
  · rename_i t hplace
    obtain ⟨row, hrow⟩ := hc.hasTurn_of_place hplace
    have hlow : t ≤ event.byteOffset := (hc.turns.le_bound t row hrow).trans hfirst.le
    exact append (hc.mono hfirst.le hthrough) ⟨row, hrow⟩ hlow le_rfl hlo hhi
  · have hfresh : p.turns[event.byteOffset]? = none := by
      cases hrow : p.turns[event.byteOffset]? with
      | none => rfl
      | some row =>
          have := hc.turns.le_bound _ _ hrow
          omega
    obtain ⟨hc', hturn⟩ := hc.openFor context hfirst hthrough
    split
    · exact openFor hfresh context
    · exact (openFor hfresh context).comp (append hc' hturn le_rfl le_rfl hlo hhi)

/-- **One event.** -/
theorem step (hc : Consistent bound p) (context : Context) (hfirst : bound < event.byteOffset) :
    Between bound event.byteOffset p (p.step context event) := by
  have hadvance : Between bound event.byteOffset p (p.advance event) := advance event
  unfold Projection.step
  simp only
  split
  · exact hadvance
  · have hsame := sameReceipt_correlate context (p.advance event) event
    have hstate := state_correlate context (p.advance event) event
    have hcorrelate : Between bound event.byteOffset (p.advance event)
        ((p.advance event).correlate context event).1 :=
      correlate (hc.advance event) context hfirst le_rfl
    have hc' := (hc.advance event).correlate context event
    have hthrough : event.byteOffset ≤ (p.advance event).state.projectedThrough :=
      le_max_right _ _
    rw [← hstate] at hthrough
    generalize (p.advance event).correlate context event = acc at *
    obtain ⟨p1, event1⟩ := acc
    have hlinks : Between bound event.byteOffset p (p1.addLinks
        (eventLinks context.parseUuid context.sessionUuid context.childOf event1)) :=
      hadvance.comp (hcorrelate.comp (addLinks _))
    simp only
    split
    · exact hlinks
    · rw [← hsame.1] at hfirst hthrough hlinks ⊢
      exact hlinks.comp (settle (hc'.addLinks _) context hfirst hthrough hfirst le_rfl)

theorem lastOffset_ge {events : List StoredEvent} (h : Ascending bound events) :
    bound ≤ lastOffset bound events := by
  induction events generalizing bound with
  | nil => exact le_rfl
  | cons event events ih =>
      obtain ⟨hfirst, hrest⟩ := ascending_cons.mp h
      exact hfirst.le.trans (ih hrest)

/-- **Events in order.** -/
theorem steps {events : List StoredEvent} (hc : Consistent bound p)
    (hevents : Ascending bound events) (context : Context) :
    Between bound (lastOffset bound events) p (events.foldl (Projection.step context) p) := by
  induction events generalizing bound p with
  | nil => exact refl p
  | cons event events ih =>
      obtain ⟨hfirst, hrest⟩ := ascending_cons.mp hevents
      exact (step hc context hfirst).trans (ih (hc.step hfirst) hrest) hfirst.le
        (lastOffset_ge hrest)

/-- Up to a later offset. -/
theorem widen (h : Between lo mid p p') (hhi : mid ≤ hi) : Between lo hi p p' where
  ops := fun k op hk => (h.ops k op hk).imp_right fun hnew => ⟨hnew.1, hnew.2.trans hhi⟩
  kept := h.kept
  items := fun k item hk => (h.items k item hk).imp_right fun hnew => ⟨hnew.1, hnew.2.trans hhi⟩
  items_kept := h.items_kept
  turns := h.turns
  through := h.through

end Between

/-! ## Batches -/

namespace Reached

variable {events : List StoredEvent}

/-- **What a batch changes lies between the cursors** before and after it. -/
theorem between (h : Reached p) (hevents : Ascending p.state.projectedThrough events)
    (hbatch : projectBatch context p events = some p') :
    Between p.state.projectedThrough p'.state.projectedThrough p p' := by
  rw [projectBatch_eq h.consistent hevents] at hbatch
  cases hbatch
  exact (Between.steps h.consistent hevents context).widen
    (h.consistent.steps hevents context).bound_le

theorem between_empty (h : Reached p) : Between (-1) p.state.projectedThrough {} p := by
  induction h with
  | empty => exact .refl {}
  | batch hdb hevents hbatch ih =>
      have hnew := hdb.between hevents hbatch
      exact ih.trans hnew ih.through hnew.through

/-- Operations are changed at offsets up to the cursor. -/
theorem changedAt_mem (h : Reached p) (hop : op ∈ rows p.ops) :
    -1 < op.changedAt ∧ op.changedAt ≤ p.state.projectedThrough := by
  obtain ⟨k, hk⟩ := mem_rows.mp hop
  rcases h.between_empty.ops k op hk with ⟨hnone, -⟩ | hnew
  · simp at hnone
  · exact hnew

theorem offset_mem (h : Reached p) {k : Int × Int} {item : TimelineChunk}
    (hk : p.items[k]? = some item) : -1 < k.2 ∧ k.2 ≤ p.state.projectedThrough := by
  rcases h.between_empty.items k item hk with hnone | hnew
  · simp at hnone
  · exact hnew

end Reached

end Sulion.Timeline
