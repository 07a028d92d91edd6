import Sulion.Plans.Model
import Sulion.Lib.Transition

set_option autoImplicit false

/-! # Operations on published plans

Each operation is one transaction: its statements run on the rows `Db` with the transaction's
start time `now` for every `NOW()`, and an error rolls everything back. `newId` gives the ids that
`Uuid::new_v4` makes. The views that operations return are left out.
-/

namespace Sulion.Plans

open Rust Transition

/-! ## Statements -/

def Db.plan (db : Db) (id : Uuid) : Option PlanRow := db.plans.find? fun p => decide (p.id = id)

/-- `UPDATE plans SET … WHERE id = $1`. -/
def Db.updatePlan (db : Db) (id : Uuid) (set : PlanRow → PlanRow) : Db :=
  { db with plans := db.plans.map fun p => if p.id = id then set p else p }

/-- `UPDATE plan_phases SET … WHERE …`. -/
def Db.updatePhases (db : Db) (selected : PhaseRow → Bool) (set : PhaseRow → PhaseRow) : Db :=
  { db with phases := db.phases.map fun p => if selected p then set p else p }

def bumpRevision (db : Db) (now : Timestamp) (planId : Uuid) : Db :=
  db.updatePlan planId fun p => { p with revision := p.revision + 1, updatedAt := now }

/-- Append an event; the id is the next of the sequence. -/
def Db.log (db : Db) (event : Nat → PlanEvent) : Db :=
  { db with events := db.events ++ [event db.events.length] }

def insertEvent (db : Db) (now : Timestamp) (planId : Uuid) (phaseId : Option Uuid)
    (eventType : EventType) (actor : PlanActor) (fromStatus toStatus note : Option String) : Db :=
  db.log fun id =>
    ⟨id, planId, phaseId, eventType, actor, fromStatus, toStatus, note, none, none, now⟩

/-- `guidance::record_change`. -/
def recordChange (db : Db) (now : Timestamp) (planId : Uuid) (actor : PlanActor)
    (before : Option PlanGuidance) (after : PlanGuidance) (note : Option String) : Db :=
  if before = some after ∨ before = none ∧ after = {} then db
  else db.log fun id =>
    ⟨id, planId, none, .guidanceChanged, actor, none, none, note, before, some after, now⟩

def ensurePlanOpen (db : Db) (planId : Uuid) : Except String PlanRow := do
  let plan ← (db.plan planId).elim (.error ("plan not found: " ++ uuidText planId)) .ok
  require plan.status.isOpen ("plan is closed with status " ++ plan.status.text)
  return plan

def duplicateKey : String := "duplicate key value violates unique constraint"

def rowNotFound : String := "no rows returned by a query that expected to return at least one row"

def insertPlan (db : Db) (now : Timestamp) (planId : Uuid) (repoName title summary : String)
    (guidance : PlanGuidance) (parentPlanId : Option Uuid) (rootPlanId : Uuid) (depth : Nat)
    (actor : PlanActor) : Except String Db := do
  require (db.plans.all fun p => decide (p.id ≠ planId)) duplicateKey
  let db := { db with
    plans := db.plans ++ [⟨planId, repoName, title, summary, guidance, .active, 1, parentPlanId,
      rootPlanId, depth, actor, now, now, none⟩] }
  let eventType := if parentPlanId.isSome then .branchCreated else .planCreated
  let db := insertEvent db now planId none eventType actor none (some "active") none
  return recordChange db now planId actor none guidance none

/-- One turn of `insert_phases`, and the insert of `add_phase`. -/
def insertPhase (db : Db) (now : Timestamp) (planId phaseId : Uuid) (position : Int)
    (phase : CheckedPhase) (actor : PlanActor) (completedAt : Option Timestamp) :
    Except String Db := do
  require (db.phases.all fun p => decide (p.id ≠ phaseId)) duplicateKey
  let startedAt := if phase.status = .inProgress then some now else none
  let db := { db with
    phases := db.phases ++ [⟨phaseId, planId, position, phase.title, phase.description,
      phase.status, none, phase.size, startedAt, completedAt, now, now⟩] }
  return insertEvent db now planId (some phaseId) .phaseAdded actor none
    (some phase.status.text) none

/-- A phase that starts as completed gets no `completed_at` here, unlike in `add_phase`. -/
def insertPhases (db : Db) (now : Timestamp) (newId : Nat → Uuid) (planId : Uuid)
    (phases : List CheckedPhase) (actor : PlanActor) : Except String Db :=
  phases.zipIdx.foldlM
    (fun db (phase, index) =>
      insertPhase db now planId (newId index) (index + 1) phase actor none)
    db

/-- The plan a terminal is attached to. -/
def Db.attachedPlan (db : Db) (ptyId : Uuid) : Option Uuid :=
  (db.attachments.find? fun a => decide (a.ptySessionId = ptyId ∧ a.detachedAt = none)).map
    (·.planId)

/-- `UPDATE plan_attachments SET detached_at = NOW() WHERE … AND detached_at IS NULL`. -/
def Db.detachAll (db : Db) (now : Timestamp) (selected : Attachment → Bool) : Db :=
  { db with
    attachments := db.attachments.map fun a =>
      if selected a ∧ a.detachedAt = none then { a with detachedAt := some now } else a }

/-- A terminal that is attached to another plan leaves it. -/
def leaveOldPlan (db : Db) (now : Timestamp) (ptyId : Uuid) (actor : PlanActor) : Db :=
  match db.attachedPlan ptyId with
  | none => db
  | some oldPlanId =>
      let db := db.detachAll now fun a => decide (a.ptySessionId = ptyId)
      let db := bumpRevision db now oldPlanId
      insertEvent db now oldPlanId none .planDetached actor none none
        (some ("PTY " ++ uuidText ptyId ++ " attached to another plan"))

def attachInTx (ptys : Uuid → Option PtySession) (db : Db) (now : Timestamp)
    (planId ptyId : Uuid) (actor : PlanActor) (bump : Bool) : Except String Db := do
  let plan ← (db.plan planId).elim (.error rowNotFound) .ok
  let session ← (ptys ptyId).elim (.error ("live PTY session not found: " ++ uuidText ptyId)) .ok
  require (decide (session.repo = plan.repoName)) ("cannot attach PTY from repo " ++ session.repo ++
    " to plan in repo " ++ plan.repoName)
  if db.attachedPlan ptyId = some planId then return db
  else
    let db := leaveOldPlan db now ptyId actor
    let db := { db with
      attachments := db.attachments ++ [⟨planId, ptyId, session.currentSessionUuid, now, none⟩] }
    let db := if bump then bumpRevision db now planId else db
    return insertEvent db now planId none .planAttached actor none none
      (some ("PTY " ++ uuidText ptyId))

/-! ## Creating plans -/

def create (ptys : Uuid → Option PtySession) (db : Db) (now : Timestamp) (newId : Nat → Uuid)
    (input : CreatePlanInput) (actor : PlanActor) : Except String Db := do
  validateActor actor
  let repoName ← requiredText input.repoName "repo name" maxTitleChars
  let title ← requiredText input.title "plan title" maxTitleChars
  let summary ← limitedText input.summary "plan summary" maxSummaryChars
  let guidance ← input.guidance.validated
  let phases ← validateNewPhases input.phases input.allPending
  let planId := newId 0
  let db ← insertPlan db now planId repoName title summary guidance none planId 0 actor
  let db ← insertPhases db now (fun i => newId (i + 1)) planId phases actor
  match if input.attachCurrentPty then actor.ptySessionId else none with
  | some ptyId => attachInTx ptys db now planId ptyId actor false
  | none => return db

def maxBranchDepth : Nat := 8

/-- `ORDER BY CASE status WHEN 'blocked' THEN 0 ELSE 1 END, position`. -/
def PhaseRow.blockedFirst (p q : PhaseRow) : Bool :=
  if p.status = .blocked ∧ q.status ≠ .blocked then true
  else if p.status ≠ .blocked ∧ q.status = .blocked then false
  else decide (p.position ≤ q.position)

/-- The current phase: a blocked one first. -/
def Db.currentPhase (db : Db) (planId : Uuid) : Option PhaseRow :=
  ((db.phases.filter fun p => decide
    (p.planId = planId ∧ (p.status = .inProgress ∨ p.status = .blocked))).mergeSort
    PhaseRow.blockedFirst).head?

def resolvePhaseIdInTx (parseUuid : String → Option Uuid) (db : Db) (planId : Uuid)
    (reference : String) : Except String Uuid :=
  match parseUuid reference with
  | some id =>
      (db.phases.find? fun p => decide (p.planId = planId ∧ p.id = id)).elim
        (.error ("phase not found in parent plan: " ++ reference)) fun p => .ok p.id
  | none =>
      match parseI32 reference with
      | none => .error "phase must be a UUID or 1-based position"
      | some position =>
          (db.phases.find? fun p => decide (p.planId = planId ∧ p.position = position)).elim
            (.error ("phase not found at position " ++ toString position)) fun p => .ok p.id

def resolveAnchorPhases (parseUuid : String → Option Uuid) (db : Db) (parentPlanId : Uuid)
    (refs : List String) : Except String (List Uuid) :=
  if refs.isEmpty then
    (db.currentPhase parentPlanId).elim
      (.error "parent plan has no phase in progress; name the phases with parent_phase_refs")
      fun p => .ok [p.id]
  else
    refs.foldlM
      (fun out reference => do
        let phaseId ← resolvePhaseIdInTx parseUuid db parentPlanId reference
        return if phaseId ∈ out then out else out ++ [phaseId])
      []

def branchNote (title : String) : Option String → String
  | some note => "branched to \"" ++ title ++ "\": " ++ note
  | none => "branched to \"" ++ title ++ "\""

/-- One turn of the loop over the anchors. A pending phase is under way now. -/
def openBranchUnder (now : Timestamp) (parentPlanId planId : Uuid) (note : String)
    (actor : PlanActor) (db : Db) (anchor : Uuid) : Db :=
  let db : Db := { db with anchors := db.anchors ++ [⟨planId, anchor, now⟩] }
  let db := db.updatePhases (fun p => decide (p.id = anchor ∧ p.status = .pending)) fun p =>
    { p with
      status := .inProgress
      startedAt := some (p.startedAt.getD now)
      updatedAt := now }
  insertEvent db now parentPlanId (some anchor) .branchOpened actor none none (some note)

def branch (parseUuid : String → Option Uuid) (ptys : Uuid → Option PtySession) (db : Db)
    (now : Timestamp) (newId : Nat → Uuid) (parentPlanId : Uuid) (input : BranchPlanInput)
    (actor : PlanActor) : Except String Db := do
  validateActor actor
  let title ← requiredText input.title "plan title" maxTitleChars
  let summary ← limitedText input.summary "plan summary" maxSummaryChars
  let guidance ← input.guidance.validated
  let note ← cleanNote input.note
  let phases ← validateNewPhases input.phases input.allPending
  let parent ← ensurePlanOpen db parentPlanId
  let depth := parent.depth + 1
  require (decide (depth ≤ maxBranchDepth)) ("branch depth " ++ toString depth ++
    " exceeds the maximum of " ++ toString maxBranchDepth ++
    "; close a branch before opening another")
  let anchors ← resolveAnchorPhases parseUuid db parentPlanId input.parentPhaseRefs
  let planId := newId 0
  let db ← insertPlan db now planId parent.repoName title summary guidance (some parentPlanId)
    parent.rootPlanId depth actor
  let db ← insertPhases db now (fun i => newId (i + 1)) planId phases actor
  let db := anchors.foldl
    (openBranchUnder now parentPlanId planId (branchNote title note) actor) db
  let db := bumpRevision db now parentPlanId
  match actor.ptySessionId with
  | some ptyId => attachInTx ptys db now planId ptyId actor false
  | none => return db

/-! ## Closing plans -/

/-- One turn of `skip_remaining_phases`. -/
def skipPhase (now : Timestamp) (planId : Uuid) (actor : PlanActor) (note : Option String)
    (db : Db) (phase : PhaseRow) : Db :=
  let db := db.updatePhases (fun p => decide (p.planId = planId ∧ p.id = phase.id)) fun p =>
    { p with
      status := .skipped
      statusNote := note.or p.statusNote
      completedAt := some now
      updatedAt := now }
  insertEvent db now planId (some phase.id) .phaseStatusChanged actor (some phase.status.text)
    (some "skipped") note

def Db.unfinished (db : Db) (planId : Uuid) : List PhaseRow :=
  db.phases.filter fun p => decide (p.planId = planId) && !p.status.isDone

def skipRemainingPhases (db : Db) (now : Timestamp) (planId : Uuid) (actor : PlanActor)
    (note : Option String) : Db :=
  ((db.unfinished planId).mergeSort fun p q => decide (p.position ≤ q.position)).foldl
    (skipPhase now planId actor note) db

/-- A blocked anchor of the branch is released. -/
def releaseAnchor (now : Timestamp) (parentId : Uuid) (actor : PlanActor) (note : Option String)
    (db : Db) (phaseId : Uuid) : Db :=
  insertEvent db now parentId (some phaseId) .phaseStatusChanged actor (some "blocked")
    (some "in_progress") (some (note.getD "branch completed"))

/-- A phase is blocked and anchors the branch. -/
def Db.isBlockedAnchor (db : Db) (planId : Uuid) (phase : PhaseRow) : Bool :=
  decide (phase.status = .blocked) &&
    db.anchors.any fun a => decide (a.planId = planId ∧ a.parentPhaseId = phase.id)

/-- Completing a branch resolves what blocked its anchors. -/
def releaseAnchors (db : Db) (now : Timestamp) (planId parentId : Uuid) (actor : PlanActor)
    (note : Option String) : Db :=
  let released := (db.phases.filter (db.isBlockedAnchor planId)).map (·.id)
  let db := db.updatePhases (db.isBlockedAnchor planId) fun p =>
    { p with status := .inProgress, updatedAt := now }
  released.foldl (releaseAnchor now parentId actor note) db

/-- A terminal of a closed branch goes back to the parent, if it is still live. -/
def popPty (ptys : Uuid → Option PtySession) (now : Timestamp) (parentId : Uuid)
    (actor : PlanActor) (db : Db) (ptyId : Uuid) : Except String Db :=
  if (ptys ptyId).isSome then attachInTx ptys db now parentId ptyId actor false else .ok db

/-- Terminals attached to a plan, in the order they were attached. -/
def Db.attachedPtys (db : Db) (planId : Uuid) : List Uuid :=
  ((db.attachments.filter fun a => decide (a.planId = planId ∧ a.detachedAt = none)).mergeSort
    fun a b => decide (a.attachedAt ≤ b.attachedAt)).map (·.ptySessionId)

def closeBranchIntoParent (ptys : Uuid → Option PtySession) (db : Db) (now : Timestamp)
    (planId : Uuid) (parentPlanId : Option Uuid) (status : PlanStatus) (actor : PlanActor)
    (note : Option String) : Except String Db := do
  let detached (db : Db) := db.detachAll now fun a => decide (a.planId = planId)
  match parentPlanId.filter fun id => (db.plan id).any (·.status.isOpen) with
  | none => return detached db
  | some parentId =>
      let db := if status = .completed then releaseAnchors db now planId parentId actor note else db
      let ptyIds := db.attachedPtys planId
      let db ← ptyIds.foldlM (popPty ptys now parentId actor) (detached db)
      let db := bumpRevision db now parentId
      return insertEvent db now parentId none .branchClosed actor none (some status.text) note

/-- The open branches of a plan, oldest first. -/
def Db.openBranches (db : Db) (planId : Uuid) : List PlanRow :=
  (db.plans.filter fun p => decide (p.parentPlanId = some planId) && p.status.isOpen).mergeSort
    fun p q => decide (p.createdAt ≤ q.createdAt)

def update (ptys : Uuid → Option PtySession) (db : Db) (now : Timestamp) (planId : Uuid)
    (input : UpdatePlanInput) (actor : PlanActor) : Except String Db := do
  validateActor actor
  let current ← (db.plan planId).elim (.error ("plan not found: " ++ uuidText planId)) .ok
  let title ← input.title.elim (.ok current.title) fun value =>
    requiredText value "plan title" maxTitleChars
  let summary ← input.summary.elim (.ok current.summary) fun value =>
    limitedText value "plan summary" maxSummaryChars
  let guidance ← current.guidance.withUpdate input
  let status ← validatePlanStatus (input.status.getD current.status.text)
  let note ← cleanNote input.note
  require (!input.requireBranch || current.parentPlanId.isSome)
    "this plan is not a branch; close it with plan close instead of plan return"
  -- The tree is closed from its leaves.
  require (status.isOpen || (db.openBranches planId).isEmpty)
    ("plan has " ++ toString (db.openBranches planId).length ++ " open branch(es): " ++
      String.intercalate ", " ((db.openBranches planId).map (·.title)) ++ "; close them first")
  require (decide (status ≠ .completed) || (db.unfinished planId).isEmpty || input.skipRemaining)
    ("plan has " ++ toString (db.unfinished planId).length ++
      " unfinished phase(s); use skip_remaining to complete it")
  let db := if !status.isOpen && input.skipRemaining then
      skipRemainingPhases db now planId actor note
    else db
  let db := db.updatePlan planId fun p =>
    { p with
      title := title
      summary := summary
      status := status
      revision := p.revision + 1
      closedAt := if status.isOpen then none else some (p.closedAt.getD now)
      updatedAt := now
      guidance := guidance }
  let db := recordChange db now planId actor (some current.guidance) guidance note
  let eventType :=
    if status ≠ current.status then
      if status.isOpen then .planStatusChanged else .planClosed
    else .planUpdated
  let db := insertEvent db now planId none eventType actor (some current.status.text)
    (some status.text) note
  if status.isOpen then return db
  else closeBranchIntoParent ptys db now planId current.parentPlanId status actor note

/-! ## Phases -/

def addPhase (db : Db) (now : Timestamp) (newId : Nat → Uuid) (planId : Uuid) (phase : NewPhase)
    (actor : PlanActor) : Except String Db := do
  validateActor actor
  let title ← requiredText phase.title "phase title" maxTitleChars
  let description ← limitedText phase.description "phase description" maxDescriptionChars
  let status ← validatePhaseStatus (phase.status.getD "pending")
  let size ← validatePhaseSize phase.size
  let _ ← ensurePlanOpen db planId
  let positions := (db.phases.filter fun p => decide (p.planId = planId)).map (·.position)
  let completedAt := if status.isDone then some now else none
  let db ← insertPhase db now planId (newId 0) ((positions.max?.getD 0) + 1)
    ⟨title, description, status, size⟩ actor completedAt
  return bumpRevision db now planId

def movePhase (db : Db) (now : Timestamp) (planId phaseId : Uuid)
    (oldPosition requestedPosition : Int) : Db :=
  let count : Int := (db.phases.filter fun p => decide (p.planId = planId)).length
  let newPosition := min (max requestedPosition 1) count
  if newPosition = oldPosition then db
  else
    let db :=
      if newPosition < oldPosition then
        db.updatePhases
          (fun p => decide (p.planId = planId ∧ newPosition ≤ p.position ∧
            p.position < oldPosition ∧ p.id ≠ phaseId))
          fun p => { p with position := p.position + 1, updatedAt := now }
      else
        db.updatePhases
          (fun p => decide (p.planId = planId ∧ oldPosition < p.position ∧
            p.position ≤ newPosition ∧ p.id ≠ phaseId))
          fun p => { p with position := p.position - 1, updatedAt := now }
    db.updatePhases (fun p => decide (p.planId = planId ∧ p.id = phaseId)) fun p =>
      { p with position := newPosition }

/-- `started_at` and `completed_at` of the `UPDATE` of `update_phase`. -/
def PhaseRow.setStatus (phase : PhaseRow) (status : PhaseStatus) (now : Timestamp) : PhaseRow :=
  { phase with
    status := status
    startedAt :=
      if status = .inProgress ∨ status = .blocked then some (phase.startedAt.getD now)
      else if status = .pending then none
      else phase.startedAt
    completedAt := if status.isDone then some (phase.completedAt.getD now) else none
    updatedAt := now }

def updatePhase (db : Db) (now : Timestamp) (planId phaseId : Uuid) (input : UpdatePhaseInput)
    (actor : PlanActor) : Except String Db := do
  validateActor actor
  let _ ← ensurePlanOpen db planId
  let current ← (db.phases.find? fun p => decide (p.id = phaseId ∧ p.planId = planId)).elim
    (.error ("phase not found: " ++ uuidText phaseId)) .ok
  let title ← input.title.elim (.ok current.title) fun value =>
    requiredText value "phase title" maxTitleChars
  let description ← input.description.elim (.ok current.description) fun value =>
    limitedText value "phase description" maxDescriptionChars
  let status ← validatePhaseStatus (input.status.getD current.status.text)
  let statusNote ← input.statusNote.elim (.ok current.statusNote) fun value =>
    cleanNote (some value)
  let size ← input.size.elim (.ok current.size) fun value => validatePhaseSize (some value)
  let db := input.position.elim db fun position =>
    movePhase db now planId phaseId current.position position
  let db := db.updatePhases (fun p => decide (p.id = phaseId ∧ p.planId = planId)) fun p =>
    { p.setStatus status now with
      title := title
      description := description
      statusNote := statusNote
      size := size }
  let db := bumpRevision db now planId
  let eventType := if status = current.status then .phaseUpdated else .phaseStatusChanged
  return insertEvent db now planId (some phaseId) eventType actor (some current.status.text)
    (some status.text) statusNote

/-! ## Attaching -/

def attach (ptys : Uuid → Option PtySession) (db : Db) (now : Timestamp) (planId ptyId : Uuid)
    (actor : PlanActor) : Except String Db := do
  validateActor actor
  let _ ← ensurePlanOpen db planId
  attachInTx ptys db now planId ptyId actor true

def detach (db : Db) (now : Timestamp) (planId ptyId : Uuid) (actor : PlanActor) :
    Except String Db := do
  validateActor actor
  let selected (a : Attachment) : Bool := decide (a.planId = planId ∧ a.ptySessionId = ptyId)
  if db.attachments.any fun a => selected a && a.detachedAt.isNone then
    let db := db.detachAll now selected
    let db := bumpRevision db now planId
    return insertEvent db now planId none .planDetached actor none none
      (some ("PTY " ++ uuidText ptyId))
  else return db

/-! ## Runs -/

inductive Operation
  | create (input : CreatePlanInput)
  | branch (parentPlanId : Uuid) (input : BranchPlanInput)
  | update (planId : Uuid) (input : UpdatePlanInput)
  | addPhase (planId : Uuid) (phase : NewPhase)
  | updatePhase (planId phaseId : Uuid) (input : UpdatePhaseInput)
  | attach (planId ptyId : Uuid)
  | detach (planId ptyId : Uuid)

/-- A call: the time its transaction starts and the time it has its locks; what it finds of the
terminals; its fresh ids. -/
structure Call where
  startedAt : Timestamp
  lockedAt : Timestamp
  ptys : Uuid → Option PtySession
  newId : Nat → Uuid
  actor : PlanActor
  operation : Operation

def Call.run (parseUuid : String → Option Uuid) (call : Call) (db : Db) : Except String Db :=
  match call.operation with
  | .create input => create call.ptys db call.startedAt call.newId input call.actor
  | .branch parentPlanId input =>
      branch parseUuid call.ptys db call.startedAt call.newId parentPlanId input call.actor
  | .update planId input => update call.ptys db call.startedAt planId input call.actor
  | .addPhase planId phase => addPhase db call.startedAt call.newId planId phase call.actor
  | .updatePhase planId phaseId input =>
      updatePhase db call.startedAt planId phaseId input call.actor
  | .attach planId ptyId => attach call.ptys db call.startedAt planId ptyId call.actor
  | .detach planId ptyId => detach db call.startedAt planId ptyId call.actor

structure Store where
  clock : Timestamp
  db : Db

def Store.new (clock : Timestamp) : Store := ⟨clock, .empty⟩

/-- Transactions follow one another in the order they get their locks; a call that fails is
rolled back. -/
def planStep (parseUuid : String → Option Uuid) (s : Store) (call : Call) : Option Store :=
  if s.clock ≤ call.lockedAt ∧ call.startedAt ≤ call.lockedAt then
    match call.run parseUuid s.db with
    | .ok db => some ⟨call.lockedAt, db⟩
    | .error _ => some ⟨call.lockedAt, s.db⟩
  else none

end Sulion.Plans
