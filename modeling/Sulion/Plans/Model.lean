import Sulion.Lib.Checked
import Sulion.Basic
import Sulion.Rust.Text

set_option autoImplicit false

/-! # Published plans: rows and inputs

A plan has phases; a plan that is a branch has a parent plan, and anchors among the parent's
phases. Terminals are attached to plans, and every change is an event. The tables are lists in
the order of insertion, and texts are checked as the service does before anything is stored.
-/

namespace Sulion.Plans

open Rust

/-! ## Statuses -/

inductive PlanStatus
  | active
  | paused
  | completed
  | canceled
  deriving DecidableEq, Repr

namespace PlanStatus

def text : PlanStatus → String
  | active => "active"
  | paused => "paused"
  | completed => "completed"
  | canceled => "canceled"

/-- `status IN ('active', 'paused')`. -/
def isOpen : PlanStatus → Bool
  | active | paused => true
  | completed | canceled => false

end PlanStatus

/-- `validate_plan_status`. -/
def validatePlanStatus : String → Except String PlanStatus
  | "active" => .ok .active
  | "paused" => .ok .paused
  | "completed" => .ok .completed
  | "canceled" => .ok .canceled
  | status => .error ("invalid plan status: " ++ status)

inductive PhaseStatus
  | pending
  | inProgress
  | blocked
  | completed
  | skipped
  deriving DecidableEq, Repr

namespace PhaseStatus

def text : PhaseStatus → String
  | pending => "pending"
  | inProgress => "in_progress"
  | blocked => "blocked"
  | completed => "completed"
  | skipped => "skipped"

/-- `status IN ('completed', 'skipped')`. -/
def isDone : PhaseStatus → Bool
  | completed | skipped => true
  | pending | inProgress | blocked => false

end PhaseStatus

/-- `validate_phase_status`. -/
def validatePhaseStatus : String → Except String PhaseStatus
  | "pending" => .ok .pending
  | "in_progress" => .ok .inProgress
  | "blocked" => .ok .blocked
  | "completed" => .ok .completed
  | "skipped" => .ok .skipped
  | status => .error ("invalid phase status: " ++ status)

inductive PhaseSize
  | s
  | m
  | l
  deriving DecidableEq, Repr

/-- `validate_phase_size`: an empty size clears it. -/
def validatePhaseSize : Option String → Except String (Option PhaseSize)
  | none => .ok none
  | some raw =>
      match toAsciiLowercase (trim raw) with
      | "" => .ok none
      | "s" => .ok (some .s)
      | "m" => .ok (some .m)
      | "l" => .ok (some .l)
      | _ => .error ("invalid phase size: " ++ raw ++ " (expected s, m, or l)")

inductive EventType
  | planCreated
  | branchCreated
  | planUpdated
  | planClosed
  | planStatusChanged
  | planAttached
  | planDetached
  | phaseAdded
  | phaseUpdated
  | phaseStatusChanged
  | branchOpened
  | branchClosed
  | guidanceChanged
  deriving DecidableEq, Repr

/-! ## Texts -/

def maxTitleChars : Nat := 160

def maxSummaryChars : Nat := 1000

def maxDescriptionChars : Nat := 1000

def maxNoteChars : Nat := 1000

def limitedText (value label : String) (maxChars : Nat) : Except String String :=
  let value := trim value
  if maxChars < value.length then
    .error (label ++ " exceeds " ++ toString maxChars ++ " characters")
  else .ok value

def requiredText (value label : String) (maxChars : Nat) : Except String String :=
  let value := trim value
  if value.isEmpty then .error (label ++ " is required") else limitedText value label maxChars

def cleanNote : Option String → Except String (Option String)
  | none => .ok none
  | some value => do
      let value ← limitedText value "note" maxNoteChars
      return if value.isEmpty then none else some value

structure PlanActor where
  kind : String
  ptySessionId : Option Uuid
  agentSessionUuid : Option Uuid

def validateActor (actor : PlanActor) : Except String Unit :=
  require (decide (actor.kind = "agent" ∨ actor.kind = "user" ∨ actor.kind = "system"))
    ("invalid plan actor kind: " ++ actor.kind)

/-! ## Guidance -/

inductive BoundarySource
  | userRequirement
  | userCorrection
  | agentProposal
  deriving DecidableEq, Repr

structure PlanBoundary where
  source : BoundarySource
  text : String
  deriving DecidableEq

structure PlanGuidance where
  outcome : String := ""
  principles : List String := []
  assumptions : List String := []
  boundaries : List PlanBoundary := []
  deriving DecidableEq

def validateItems (items : List String) (label : String) : Except String (List String) := do
  require (decide (items.length ≤ 10)) ("guidance allows at most 10 " ++ label ++ " entries")
  items.mapM fun item => requiredText item label 500

def PlanGuidance.validated (guidance : PlanGuidance) : Except String PlanGuidance := do
  require (decide (guidance.boundaries.length ≤ 10)) "guidance allows at most 10 boundary entries"
  let outcome ← limitedText guidance.outcome "outcome" 1000
  let principles ← validateItems guidance.principles "principle"
  let assumptions ← validateItems guidance.assumptions "assumption"
  let boundaries ← guidance.boundaries.mapM fun boundary => do
    let text ← requiredText boundary.text "boundary" 500
    return { boundary with text := text }
  return ⟨outcome, principles, assumptions, boundaries⟩

/-! ## Rows -/

structure PlanRow where
  id : Uuid
  repoName : String
  title : String
  summary : String
  guidance : PlanGuidance
  status : PlanStatus
  revision : Nat
  parentPlanId : Option Uuid
  rootPlanId : Uuid
  depth : Nat
  createdBy : PlanActor
  createdAt : Timestamp
  updatedAt : Timestamp
  closedAt : Option Timestamp

structure PhaseRow where
  id : Uuid
  planId : Uuid
  position : Int
  title : String
  description : String
  status : PhaseStatus
  statusNote : Option String
  size : Option PhaseSize
  startedAt : Option Timestamp
  completedAt : Option Timestamp
  createdAt : Timestamp
  updatedAt : Timestamp

/-- A row of `plan_branch_anchors`. -/
structure Anchor where
  planId : Uuid
  parentPhaseId : Uuid
  createdAt : Timestamp

structure Attachment where
  planId : Uuid
  ptySessionId : Uuid
  agentSessionUuid : Option Uuid
  attachedAt : Timestamp
  detachedAt : Option Timestamp

structure PlanEvent where
  id : Nat
  planId : Uuid
  phaseId : Option Uuid
  eventType : EventType
  actor : PlanActor
  fromStatus : Option String
  toStatus : Option String
  note : Option String
  guidanceBefore : Option PlanGuidance
  guidanceAfter : Option PlanGuidance
  createdAt : Timestamp

structure Db where
  plans : List PlanRow
  phases : List PhaseRow
  anchors : List Anchor
  attachments : List Attachment
  events : List PlanEvent

def Db.empty : Db := ⟨[], [], [], [], []⟩

/-- A live row of `pty_sessions`. -/
structure PtySession where
  repo : String
  currentSessionUuid : Option Uuid

/-! ## Inputs -/

structure NewPhase where
  title : String
  description : String := ""
  status : Option String := none
  size : Option String := none

structure CreatePlanInput where
  repoName : String
  title : String
  summary : String := ""
  guidance : PlanGuidance := {}
  phases : List NewPhase := []
  allPending : Bool := false
  attachCurrentPty : Bool := true

structure BranchPlanInput where
  title : String
  summary : String := ""
  guidance : PlanGuidance := {}
  phases : List NewPhase := []
  allPending : Bool := false
  parentPhaseRefs : List String := []
  note : Option String := none

structure UpdatePlanInput where
  title : Option String := none
  summary : Option String := none
  outcome : Option String := none
  principles : Option (List String) := none
  assumptions : Option (List String) := none
  boundaries : Option (List PlanBoundary) := none
  status : Option String := none
  note : Option String := none
  skipRemaining : Bool := false
  requireBranch : Bool := false

structure UpdatePhaseInput where
  title : Option String := none
  description : Option String := none
  status : Option String := none
  statusNote : Option String := none
  position : Option Int := none
  size : Option String := none

def PlanGuidance.withUpdate (guidance : PlanGuidance) (input : UpdatePlanInput) :
    Except String PlanGuidance :=
  PlanGuidance.validated
    { outcome := input.outcome.getD guidance.outcome
      principles := input.principles.getD guidance.principles
      assumptions := input.assumptions.getD guidance.assumptions
      boundaries := input.boundaries.getD guidance.boundaries }

def initialPhaseStatus (requested : Option String) (index : Nat) (allPending : Bool) :
    Except String PhaseStatus :=
  validatePhaseStatus
    (requested.getD (if index = 0 ∧ ¬ allPending then "in_progress" else "pending"))

/-- Title, description, initial status and size of a phase that passed its checks. -/
structure CheckedPhase where
  title : String
  description : String
  status : PhaseStatus
  size : Option PhaseSize

def validateNewPhases (phases : List NewPhase) (allPending : Bool) :
    Except String (List CheckedPhase) := do
  require (!phases.isEmpty) "a published plan requires at least one phase"
  phases.zipIdx.mapM fun (phase, index) => do
    let title ← requiredText phase.title "phase title" maxTitleChars
    let description ← limitedText phase.description "phase description" maxDescriptionChars
    let status ← initialPhaseStatus phase.status index allPending
    let size ← validatePhaseSize phase.size
    return ⟨title, description, status, size⟩

end Sulion.Plans
