import Sulion.Timeline.Reduce

set_option autoImplicit false

/-! # What a batch marks

A reducer writes links of its own session, and links from the session's parent to it, only; and an
operation whose input changed is a new or an updated one (`Reducer.Tidy`).
-/

namespace Sulion.Timeline

open Sulion.Rust

/-- A link that the batches of a session may record. -/
def OwnLink (context : Context) (l : ChildLink) : Prop :=
  l.sessionUuid = context.sessionUuid ∨
    (context.childOf = some l.sessionUuid ∧ l.childSessionUuid = context.sessionUuid)

namespace Reducer

/-- Marks and links are in order. -/
structure Tidy (context : Context) (r : Reducer) : Prop where
  context_eq : r.context = context
  input : ∀ k ∈ r.inputChanged, k ∈ r.newOps ∨ k ∈ r.updatedOps
  links : ∀ l ∈ r.links, OwnLink context l

variable {context : Context} {r r' : Reducer} {turnId : Int} {event : StoredEvent}

theorem tidy_new (db : Projection) : Tidy context (new db context) where
  context_eq := rfl
  input := by
    intro k hk
    exact absurd hk (Finset.notMem_empty k)
  links := by
    intro l hl
    exact absurd hl (Finset.notMem_empty l)

namespace Tidy

/-- Changes to turns, items, usage and caches. -/
theorem of_eq (h : Tidy context r) (hcontext : r'.context = r.context)
    (hinput : r'.inputChanged = r.inputChanged) (hnew : r'.newOps = r.newOps)
    (hupdated : r'.updatedOps = r.updatedOps) (hlinks : r'.links = r.links) : Tidy context r' where
  context_eq := hcontext.trans h.context_eq
  input := by
    rw [hinput, hnew, hupdated]
    exact h.input
  links := by
    rw [hlinks]
    exact h.links

theorem loadTurn (h : Tidy context r) : Tidy context (r.loadTurn turnId).1 := by
  unfold Reducer.loadTurn
  split
  · exact h
  · split
    · exact h.of_eq rfl rfl rfl rfl rfl
    · exact h

theorem turnMut (h : Tidy context r) (f : TurnRow → TurnRow) : Tidy context (r.turnMut turnId f) :=
  h.of_eq rfl rfl rfl rfl rfl

theorem createTurn (h : Tidy context r) (prompt sidechain : Bool) :
    Tidy context (r.createTurn event prompt sidechain) := h.of_eq rfl rfl rfl rfl rfl

theorem rememberOp (h : Tidy context r) (op : OpRow) : Tidy context (r.rememberOp op) := by
  unfold Reducer.rememberOp
  split
  · exact h
  · exact h.of_eq rfl rfl rfl rfl rfl

theorem foldl {β : Type} {f : Reducer → β → Reducer}
    (hf : ∀ r b, Tidy context r → Tidy context (f r b)) (bs : List β) (h : Tidy context r) :
    Tidy context (bs.foldl f r) := by
  induction bs generalizing r with
  | nil => exact h
  | cons b bs ih => exact ih (hf r b h)

theorem putOp (h : Tidy context r) (op : OpRow) (inputChanged : Bool) :
    Tidy context (r.putOp op inputChanged) where
  context_eq := h.context_eq
  input := by
    intro k hk
    show k ∈ r.newOps ∨ k ∈ if op.key ∈ r.newOps then r.updatedOps else insert op.key r.updatedOps
    change k ∈ (if op.key ∈ r.newOps ∨ inputChanged = false then r.inputChanged
      else insert op.key r.inputChanged) at hk
    by_cases hnew : op.key ∈ r.newOps
    · rw [if_pos (Or.inl hnew)] at hk
      rw [if_pos hnew]
      exact h.input k hk
    · rw [if_neg hnew, Finset.mem_insert]
      split at hk
      · exact (h.input k hk).imp_right Or.inr
      · rcases Finset.mem_insert.mp hk with rfl | hk
        · exact Or.inr (Or.inl rfl)
        · exact (h.input k hk).imp_right Or.inr
  links := h.links

theorem opsForPair (h : Tidy context r) (pairId : String) (before : Int) :
    Tidy context (r.opsForPair pairId before).1 := by
  unfold Reducer.opsForPair
  dsimp only
  split
  · exact h
  · have hfold := foldl (fun r op hr => hr.rememberOp op) (r.backend.opsByPair pairId before) h
    exact hfold.of_eq rfl rfl rfl rfl rfl

theorem latestOpForPair (h : Tidy context r) (pairId : String) (before : Int) :
    Tidy context (r.latestOpForPair pairId before).1 := by
  unfold Reducer.latestOpForPair
  dsimp only
  split
  · exact h
  · exact h.opsForPair pairId before

theorem applyCalls (h : Tidy context r) : Tidy context (r.applyCalls turnId event) := by
  apply foldl ?_ _ h
  intro r tool hr
  apply putOp
  have hmut : Tidy context (r.turnMut turnId (TurnRow.countCall tool)) := hr.turnMut _
  refine ⟨hmut.context_eq, ?_, hmut.links⟩
  intro k hk
  rcases hmut.input k hk with hnew | hupdated
  · exact Or.inl (Finset.mem_insert_of_mem hnew)
  · exact Or.inr hupdated

theorem noteOwnerError (h : Tidy context r) (op : OpRow) : Tidy context (r.noteOwnerError op) := by
  unfold Reducer.noteOwnerError
  dsimp only
  split
  · exact h.loadTurn.turnMut _
  · exact h.loadTurn

theorem closeWaitedCells (h : Tidy context r) (wait : OpRow) (block : Block) :
    Tidy context (r.closeWaitedCells wait block event) := by
  unfold Reducer.closeWaitedCells
  split
  · exact h
  · apply foldl fun r op hr => hr.putOp (closeCell event op) false
    exact foldl (fun r op hr => hr.rememberOp op) _ h

theorem applyResult (h : Tidy context r) (block : Block) :
    Tidy context (Reducer.applyResult turnId event r block) := by
  unfold Reducer.applyResult
  dsimp only
  have hnoted : Tidy context (if block.isError.getD false
      then r.turnMut turnId (TurnRow.noteError true) else r) := by
    split
    · exact h.turnMut _
    · exact h
  split
  · exact hnoted
  · rename_i pairId _
    have hlatest := hnoted.latestOpForPair pairId event.byteOffset
    split
    · exact hlatest
    · exact ((hlatest.closeWaitedCells _ block).putOp _ false).noteOwnerError _

theorem applyResults (h : Tidy context r) : Tidy context (r.applyResults turnId event) :=
  foldl (fun _ block hr => hr.applyResult block) _ h

theorem evidenceOwners (h : Tidy context r) (evidence : Json) :
    Tidy context (r.evidenceOwners event evidence).1 := by
  unfold Reducer.evidenceOwners
  dsimp only
  cases evidenceId evidence with
  | none => exact foldl (fun r op hr => hr.rememberOp op) _ h
  | some id =>
      have hexact := h.opsForPair id event.byteOffset
      dsimp only
      split_ifs
      · exact foldl (fun r op hr => hr.rememberOp op) _ hexact
      · exact hexact

theorem correlateRuntime (h : Tidy context r) : Tidy context (r.correlateRuntime event).1 := by
  have hfold : ∀ (evidences : List (Json × Bool)) (acc : Reducer × StoredEvent),
      Tidy context acc.1 → Tidy context (evidences.foldl (applyEvidence event) acc).1 := by
    intro evidences
    induction evidences with
    | nil => exact fun _ hacc => hacc
    | cons evidence evidences ih =>
        intro acc hacc
        apply ih
        unfold applyEvidence
        dsimp only
        have howners : Tidy context (acc.1.evidenceOwners event evidence.1).1 :=
          hacc.evidenceOwners evidence.1
        split
        · exact (howners.putOp _ true).noteOwnerError _
        · exact howners
  exact hfold _ (r, event) h

theorem charge (h : Tidy context r) (messageId : String) (tokens : Int × Int) :
    Tidy context (r.charge turnId messageId tokens) := by
  unfold Reducer.charge
  dsimp only
  cases r.usage[messageId]?.or (r.backend.messageUsage messageId) with
  | none => exact h.of_eq rfl rfl rfl rfl rfl
  | some prior =>
      have hloaded : Tidy context (r.loadTurn prior.turnId).1 := h.loadTurn
      dsimp only
      split_ifs
      all_goals exact hloaded.of_eq rfl rfl rfl rfl rfl

theorem applyUsage (h : Tidy context r) : Tidy context (r.applyUsage turnId event) := by
  unfold Reducer.applyUsage
  split
  · exact h
  · split
    · exact h.of_eq rfl rfl rfl rfl rfl
    · split
      · exact h.turnMut _
      · exact h.charge _ _

theorem recordLinks (h : Tidy context r) : Tidy context (r.recordLinks event) where
  context_eq := h.context_eq
  input := h.input
  links := by
    intro l hl
    rcases Finset.mem_union.mp hl with hl | hl
    · exact h.links l hl
    · rw [h.context_eq] at hl
      unfold eventLinks at hl
      unfold OwnLink
      split at hl
      · exact absurd hl (Finset.notMem_empty l)
      · cases hparent : context.childOf with
        | none => grind
        | some parent => grind

theorem linkSidechainTurn (h : Tidy context r) (t : Int) (seed : StoredEvent) :
    Tidy context (r.linkSidechainTurn t seed) where
  context_eq := h.context_eq
  input := h.input
  links := by
    intro l hl
    rcases Finset.mem_union.mp hl with hl | hl
    · exact h.links l hl
    · rw [h.context_eq] at hl
      unfold sidechainLinks at hl
      split at hl
      · rw [Finset.mem_singleton] at hl
        exact Or.inl (hl ▸ rfl)
      · exact absurd hl (Finset.notMem_empty l)

theorem appendEvent (h : Tidy context r) (happend : r.appendEvent turnId event = some r') :
    Tidy context r' := by
  unfold Reducer.appendEvent at happend
  dsimp only at happend
  split at happend
  · cases happend
  · cases happend
    apply applyUsage
    have hloaded : Tidy context (r.loadTurn turnId).1 := h.loadTurn
    have hcounted : Tidy context
        { (r.loadTurn turnId).1.turnMut turnId (TurnRow.countEvent event) with
          state :=
            ((r.loadTurn turnId).1.turnMut turnId (TurnRow.countEvent event)).state.countEvent
            event } := hloaded.of_eq rfl rfl rfl rfl rfl
    revert hcounted
    generalize ({ (r.loadTurn turnId).1.turnMut turnId (TurnRow.countEvent event) with
          state :=
            ((r.loadTurn turnId).1.turnMut turnId (TurnRow.countEvent event)).state.countEvent
            event } : Reducer) = counted
    intro hcounted
    have hreply : Tidy context (counted.applyReply turnId event) := by
      unfold applyReply
      split
      · exact hcounted.applyCalls.turnMut _
      · exact hcounted
    have hresults : Tidy context (if isToolResultEvent event
        then (counted.applyReply turnId event).applyResults turnId event
        else counted.applyReply turnId event) := by
      split
      · exact hreply.applyResults
      · exact hreply
    unfold pushItem
    split
    · exact hresults.of_eq rfl rfl rfl rfl rfl
    · exact hresults

theorem notePrompt (h : Tidy context r) (hnote : r.notePrompt event = some r') :
    Tidy context r' := by
  unfold Reducer.notePrompt at hnote
  split at hnote
  · split at hnote
    · split at hnote
      · cases hnote
      · cases hnote
        exact h.of_eq rfl rfl rfl rfl rfl
    · cases hnote
      exact h
  · cases hnote
    exact h

theorem routeEvent (h : Tidy context r) (hroute : r.routeEvent event = some r') :
    Tidy context r' := by
  unfold Reducer.routeEvent at hroute
  dsimp only at hroute
  split at hroute
  · split at hroute
    · exact h.appendEvent hroute
    · split at hroute
      · cases hroute
        exact h
      · have hcreated : Tidy context (r.createTurn event (isRealUserPrompt event) true) :=
          h.createTurn _ true
        have hlinked := hcreated.linkSidechainTurn event.byteOffset event
        split at hroute
        · cases hroute
          exact hlinked
        · exact hlinked.appendEvent hroute
  · split at hroute
    · cases hroute
      exact h.createTurn true false
    · split at hroute
      · exact h.appendEvent hroute
      · split at hroute
        · cases hroute
          exact h
        · exact (h.createTurn false false).appendEvent hroute

/-- **One event keeps them in order.** -/
theorem apply (h : Tidy context r) (happly : r.apply event = some r') : Tidy context r' := by
  unfold Reducer.apply at happly
  dsimp only at happly
  have hstate : Tidy context { r with state := r.state.advance event } :=
    h.of_eq rfl rfl rfl rfl rfl
  split at happly
  · cases happly
    exact hstate
  · set correlated := Reducer.correlateRuntime { r with state := r.state.advance event } event
    have hcorrelated : Tidy context correlated.1 := hstate.correlateRuntime
    have hrecorded : Tidy context (correlated.1.recordLinks correlated.2) := hcorrelated.recordLinks
    split at happly
    · cases happly
      exact hrecorded
    · rename_i noted hnoted
      exact (hrecorded.notePrompt hnoted).routeEvent happly

theorem foldlM_apply {events : List StoredEvent} (h : Tidy context r)
    (hfold : events.foldlM Reducer.apply r = some r') : Tidy context r' := by
  induction events generalizing r with
  | nil =>
      cases hfold
      exact h
  | cons event events ih =>
      rw [List.foldlM_cons] at hfold
      obtain ⟨next, hnext, hrest⟩ := Option.bind_eq_some_iff.mp hfold
      exact ih (h.apply hnext) hrest

end Tidy

end Reducer

end Sulion.Timeline
