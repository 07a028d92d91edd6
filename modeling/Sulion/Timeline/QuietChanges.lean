import Sulion.Timeline.Batches

set_option autoImplicit false

/-! # Changes that bill nothing

Everything about an event but its usage leaves alone what the turns have been billed and what they
are billed from: an event is counted, its calls, results and evidence are stored, its item shows.
`QuietChange R` says of a relation between projections that such changes keep it; the lemmas lead
from single rows to all that an event does before its usage is applied.
-/

namespace Sulion.Timeline

open Sulion.Rust Table

/-- A change that leaves the tokens of a turn and the totals they start from. -/
def TurnRow.KeepsMeter (f : TurnRow → TurnRow) : Prop :=
  ∀ row : TurnRow, (f row).inputTokens = row.inputTokens ∧
    (f row).outputTokens = row.outputTokens ∧
    (f row).usageBaselineInput = row.usageBaselineInput ∧
    (f row).usageBaselineOutput = row.usageBaselineOutput

theorem TurnRow.keepsMeter_countEvent (event : StoredEvent) :
    TurnRow.KeepsMeter (TurnRow.countEvent event) := by
  intro row
  unfold TurnRow.countEvent
  split <;> exact ⟨rfl, rfl, rfl, rfl⟩

theorem TurnRow.keepsMeter_noteError (isError : Bool) :
    TurnRow.KeepsMeter (TurnRow.noteError isError) :=
  fun _ => ⟨rfl, rfl, rfl, rfl⟩

/-- The same turns, the same latest usage and cumulative totals, and the same open turn. -/
structure SameBill (p p' : Projection) : Prop where
  turns : p'.turns = p.turns
  usage : p'.usage = p.usage
  main : p'.state.currentMain = p.state.currentMain
  input : p'.state.codexInputTotal = p.state.codexInputTotal
  output : p'.state.codexOutputTotal = p.state.codexOutputTotal

/-- A relation that quiet changes keep. -/
structure QuietChange (R : Projection → Projection → Prop) : Prop where
  trans : ∀ {p p' p'' : Projection}, R p p' → R p' p'' → R p p''
  sameBill : ∀ {p p' : Projection}, SameBill p p' → R p p'
  turn : ∀ {f : TurnRow → TurnRow} (p : Projection) (t : Int),
    TurnRow.KeepsMeter f → R p (p.modifyTurn t f)

namespace QuietChange

variable {R : Projection → Projection → Prop}

theorem refl (h : QuietChange R) (p : Projection) : R p p := h.sameBill ⟨rfl, rfl, rfl, rfl, rfl⟩

/-- Changes made one after the other. -/
theorem foldl (h : QuietChange R) {α : Type*} {g : Projection → α → Projection}
    (hg : ∀ (p : Projection) a, R p (g p a)) (l : List α) (p : Projection) : R p (l.foldl g p) := by
  induction l generalizing p with
  | nil => exact h.refl p
  | cons a l ih => exact h.trans (hg p a) (ih (g p a))

theorem advance (h : QuietChange R) (p : Projection) (event : StoredEvent) :
    R p (p.advance event) :=
  h.sameBill ⟨rfl, rfl, rfl, rfl, rfl⟩

theorem addLinks (h : QuietChange R) (p : Projection) (links : Finset ChildLink) :
    R p (p.addLinks links) :=
  h.sameBill ⟨rfl, rfl, rfl, rfl, rfl⟩

theorem noteOwnerError (h : QuietChange R) (p : Projection) (op : OpRow) :
    R p (p.noteOwnerError op) :=
  h.turn p op.turnId (TurnRow.keepsMeter_noteError op.isError)

theorem storeOp (h : QuietChange R) (context : Context) (p : Projection) (op : OpRow)
    (inputChanged : Bool) : R p (p.storeOp context op inputChanged) :=
  h.sameBill ⟨rfl, rfl, rfl, rfl, rfl⟩

theorem countEvent (h : QuietChange R) (p : Projection) (t : Int) (event : StoredEvent) :
    R p (p.countEvent t event) :=
  h.trans (h.turn p t (TurnRow.keepsMeter_countEvent event)) (h.sameBill ⟨rfl, rfl, rfl, rfl, rfl⟩)

theorem addCall (h : QuietChange R) (context : Context) (t : Int) (event : StoredEvent)
    (p : Projection) (tool : ToolUseView) : R p (p.addCall context t event tool) := by
  have hcount : R p (p.modifyTurn t (TurnRow.countCall tool)) :=
    h.turn p t fun _ => ⟨rfl, rfl, rfl, rfl⟩
  exact h.trans hcount (h.storeOp context _ _ true)

theorem addReply (h : QuietChange R) (context : Context) (p : Projection) (t : Int)
    (event : StoredEvent) : R p (p.addReply context t event) := by
  unfold Projection.addReply
  split
  · have hcalls := h.foldl (h.addCall context t event) (toolUsesIn event) p
    exact h.trans hcalls (h.turn _ t fun _ => ⟨rfl, rfl, rfl, rfl⟩)
  · exact h.refl p

theorem closeCells (h : QuietChange R) (context : Context) (p : Projection) (wait : OpRow)
    (block : Block) (event : StoredEvent) : R p (p.closeCells context wait block event) := by
  unfold Projection.closeCells
  split
  · exact h.refl p
  · exact h.foldl (fun p op => h.storeOp context p (closeCell event op) false) _ p

theorem landResult (h : QuietChange R) (context : Context) (p : Projection) (op : OpRow)
    (block : Block) (event : StoredEvent) : R p (p.landResult context op block event) := by
  have hclosed := h.closeCells context p (setResult op block event) block event
  have hstored := h.trans hclosed (h.storeOp context _ (setResult op block event) false)
  exact h.trans hstored (h.noteOwnerError _ (setResult op block event))

theorem addResult (h : QuietChange R) (context : Context) (t : Int) (event : StoredEvent)
    (p : Projection) (block : Block) : R p (p.addResult context t event block) := by
  have hflag : R p
      (if block.isError.getD false then p.modifyTurn t (TurnRow.noteError true) else p) := by
    split
    · exact h.turn p t (TurnRow.keepsMeter_noteError true)
    · exact h.refl p
  unfold Projection.addResult
  simp only
  split
  · exact hflag
  · exact h.trans hflag (h.landResult context _ _ block event)

theorem addResults (h : QuietChange R) (context : Context) (p : Projection) (t : Int)
    (event : StoredEvent) : R p (p.addResults context t event) := by
  unfold Projection.addResults
  split
  · exact h.foldl (h.addResult context t event) _ p
  · exact h.refl p

theorem addItem (h : QuietChange R) (p : Projection) (t : Int) (event : StoredEvent) :
    R p (p.addItem t event) := by
  unfold Projection.addItem
  split
  · exact h.sameBill ⟨rfl, rfl, rfl, rfl, rfl⟩
  · exact h.refl p

theorem correlate (h : QuietChange R) (context : Context) (p : Projection) (event : StoredEvent) :
    R p (p.correlate context event).1 := by
  unfold Projection.correlate
  generalize evidenceIn event = evidence
  have hfold (acc : Projection × StoredEvent) (hacc : R p acc.1) :
      R p (evidence.foldl (Projection.addEvidence context event) acc).1 := by
    induction evidence generalizing acc with
    | nil => exact hacc
    | cons e evidence ih =>
        refine ih _ (h.trans hacc ?_)
        unfold Projection.addEvidence
        split
        · rename_i op _
          have hstored := h.storeOp context acc.1 (foldEvidence event e.1 e.2 op) true
          exact h.trans hstored (h.noteOwnerError _ _)
        · exact h.refl acc.1
  exact hfold (p, event) (h.refl p)

/-- Everything about an event but its usage. -/
theorem beforeUsage (h : QuietChange R) (context : Context) (p : Projection) (t : Int)
    (event : StoredEvent) :
    R p ((((p.countEvent t event).addReply context t event).addResults context t
      event).addItem t event) := by
  have hreplied := h.trans (h.countEvent p t event) (h.addReply context _ t event)
  exact h.trans (h.trans hreplied (h.addResults context _ t event)) (h.addItem _ t event)

end QuietChange

end Sulion.Timeline
