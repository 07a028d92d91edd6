import Sulion.Plans.Flow

set_option autoImplicit false

/-! # Timestamps of phases

A phase has a `completed_at` when it is done and a `started_at` when work on it has begun. Each
writer of phases sets the two columns with its own conditions. `PhaseRow.Dated` is what they are
to keep; every writer keeps it but the inserts: `insert_phases` sets no `completed_at`, and no
insert sets the `started_at` of a phase that begins as blocked.
-/

namespace Sulion.Plans

open Transition

/-- `completed_at` is set exactly when the phase is done, `started_at` when work has begun. -/
structure PhaseRow.Dated (p : PhaseRow) : Prop where
  completed : p.completedAt.isSome ↔ p.status.isDone
  started : p.status = .inProgress ∨ p.status = .blocked → p.startedAt.isSome

def Db.AllDated (db : Db) : Prop := ∀ p ∈ db.phases, p.Dated

/-! ## Completion statistics -/

/-- Monday of the week of a day; day 0 is a Thursday. -/
def weekStart (day : Day) : Day := day - (day + 3) % 7

/-- What a phase adds to `throughput_weeks` of `completion_stats`. -/
def throughputEntry (now : Timestamp) (p : PhaseRow) : Option (Day × Nat) := do
  let completedAt ← p.completedAt
  if p.status ≠ .completed ∨ completedAt < now - 28 * 86400000000 then none
  else some (weekStart completedAt.dateNaive, sizeWeight p.size)

/-- A dated phase that is completed is missing only when it was completed long ago. -/
theorem PhaseRow.Dated.throughputEntry {p : PhaseRow} (h : p.Dated) {now : Timestamp}
    (hcompleted : p.status = .completed) (hnone : throughputEntry now p = none) :
    ∃ completedAt ∈ p.completedAt, completedAt < now - 28 * 86400000000 := by
  have hsome : p.completedAt.isSome := h.completed.mpr (by rw [hcompleted]; rfl)
  obtain ⟨completedAt, hat⟩ := Option.isSome_iff_exists.mp hsome
  refine ⟨completedAt, hat, ?_⟩
  simp only [Plans.throughputEntry, hat, hcompleted] at hnone
  by_cases hlate : completedAt < now - 28 * 86400000000
  · exact hlate
  · have hkept : ¬ (PhaseStatus.completed ≠ .completed ∨ completedAt < now - 28 * 86400000000) := by
      rintro (hne | hlt)
      · exact hne rfl
      · exact hlate hlt
    rw [Option.bind_eq_bind, Option.bind_some, if_neg hkept] at hnone
    cases hnone

variable {db db' : Db} {now : Timestamp} {planId phaseId : Uuid} {actor : PlanActor}
  {ptys : Uuid → Option PtySession} {note : Option String} {newId : Nat → Uuid}

/-! ## Statements that leave the phases -/

theorem phases_leaveOldPlan (ptyId : Uuid) :
    (leaveOldPlan db now ptyId actor).phases = db.phases := by
  unfold leaveOldPlan
  split
  · rfl
  · rfl

theorem phases_attachInTx {ptyId : Uuid} {bump : Bool} :
    Yields (attachInTx ptys db now planId ptyId actor bump) fun db' => db'.phases = db.phases := by
  unfold attachInTx
  refine .skip fun plan => .skip fun session => .require fun _ => ?_
  refine .ite (fun _ => .ok rfl) fun _ => ?_
  refine .ok ?_
  have hleft : (leaveOldPlan db now ptyId actor).phases = db.phases := phases_leaveOldPlan ptyId
  rw [← hleft]
  cases bump <;> rfl

theorem phases_recordChange {before : Option PlanGuidance} {after : PlanGuidance} :
    (recordChange db now planId actor before after note).phases = db.phases := by
  unfold recordChange
  split
  · rfl
  · rfl

theorem phases_insertPlan {repoName title summary : String} {guidance : PlanGuidance}
    {parent : Option Uuid} {rootPlanId : Uuid} {depth : Nat} :
    Yields (insertPlan db now planId repoName title summary guidance parent rootPlanId depth actor)
      fun db' => db'.phases = db.phases := by
  unfold insertPlan
  exact .require fun _ => .ok phases_recordChange

theorem phases_popPty {parentId ptyId : Uuid} :
    Yields (popPty ptys now parentId actor db ptyId) fun db' => db'.phases = db.phases := by
  unfold popPty
  exact .ite (fun _ => phases_attachInTx) fun _ => .ok rfl

/-- Closing a branch changes phases only by releasing the anchors. -/
theorem phases_closeBranchIntoParent {parent : Option Uuid} {status : PlanStatus} :
    Yields (closeBranchIntoParent ptys db now planId parent status actor note) fun db' =>
      db'.phases = db.phases ∨ ∃ parentId, db'.phases =
        (releaseAnchors db now planId parentId actor note).phases := by
  unfold closeBranchIntoParent
  split
  · exact .ok (.inl rfl)
  · rename_i parentId _
    have hloop : ∀ (released detached : Db) (ptyIds : List Uuid),
        detached.phases = released.phases →
        Yields (ptyIds.foldlM (popPty ptys now parentId actor) detached) fun db' =>
          db'.phases = released.phases := by
      intro released detached ptyIds hdetached
      refine .foldlM hdetached fun db' ptyId _ hdb' => ?_
      exact phases_popPty.mono fun db'' h => h.trans hdb'
    refine .bind (hloop (if status = .completed then
      releaseAnchors db now planId parentId actor note else db) _ _ rfl) fun db' hdb' => .ok ?_
    by_cases hcompleted : status = .completed
    · rw [if_pos hcompleted] at hdb'
      exact .inr ⟨parentId, hdb'⟩
    · rw [if_neg hcompleted] at hdb'
      exact .inl hdb'

/-! ## What each writer keeps -/

theorem validatePhaseStatus_text {text : String} :
    Yields (validatePhaseStatus text) fun status => text = status.text := by
  intro status h
  unfold validatePhaseStatus at h
  split at h <;> cases h <;> rfl

/-- A status in which `insert_phases` dates a phase correctly. -/
def PhaseStatus.unstarted (status : PhaseStatus) : Prop := status = .pending ∨ status = .inProgress

/-- The phase is not created as completed, skipped or blocked. -/
def NewPhase.StartsOpen (phase : NewPhase) : Prop :=
  phase.status ≠ some "completed" ∧ phase.status ≠ some "skipped" ∧ phase.status ≠ some "blocked"

theorem yields_initialPhaseStatus {phase : NewPhase} (h : phase.StartsOpen) {index : Nat}
    {allPending : Bool} :
    Yields (initialPhaseStatus phase.status index allPending) PhaseStatus.unstarted := by
  intro status hstatus
  have htext := validatePhaseStatus_text status hstatus
  obtain ⟨hcompleted, hskipped, hblocked⟩ := h
  cases hrequested : phase.status with
  | none =>
      rw [hrequested, Option.getD_none] at htext
      unfold PhaseStatus.unstarted
      split at htext <;> cases status <;> simp_all [PhaseStatus.text]
  | some text =>
      rw [hrequested, Option.getD_some] at htext
      unfold PhaseStatus.unstarted
      cases status <;> simp_all [PhaseStatus.text]

theorem yields_validateNewPhases {phases : List NewPhase} {allPending : Bool}
    (h : ∀ phase ∈ phases, phase.StartsOpen) :
    Yields (validateNewPhases phases allPending) fun checked =>
      ∀ phase ∈ checked, phase.status.unstarted := by
  unfold validateNewPhases
  refine .require fun _ => .mapM ?_
  rintro ⟨phase, index⟩ hmem
  have hphase : phase ∈ phases := (List.mem_zipIdx hmem).2.2 ▸ List.getElem_mem _
  refine .skip fun title => .skip fun description => ?_
  exact .bind (yields_initialPhaseStatus (h phase hphase)) fun status hstatus =>
    .skip fun size => .pure hstatus

namespace Db.AllDated

/-- An update of rows. -/
theorem updatePhases (h : db.AllDated) {c : PhaseRow → Bool} {f : PhaseRow → PhaseRow}
    (hf : ∀ p, p.Dated → c p → (f p).Dated) : (db.updatePhases c f).AllDated := by
  intro p hp
  obtain ⟨q, hq, rfl⟩ := List.mem_map.mp hp
  split
  · rename_i hc
    exact hf q (h q hq) hc
  · exact h q hq

theorem of_eq (h : db.AllDated) (hphases : db'.phases = db.phases) : db'.AllDated := by
  unfold Db.AllDated
  rw [hphases]
  exact h

theorem insertPhase (h : db.AllDated) {position : Int} {phase : CheckedPhase}
    {completedAt : Option Timestamp} (hblocked : phase.status ≠ .blocked)
    (hcompleted : completedAt.isSome ↔ phase.status.isDone) :
    Yields (insertPhase db now planId phaseId position phase actor completedAt) Db.AllDated := by
  unfold Plans.insertPhase
  refine .require fun _ => .ok ?_
  intro p hp
  rcases List.mem_append.mp hp with hp | hp
  · exact h p hp
  · rw [List.mem_singleton.mp hp]
    refine ⟨hcompleted, ?_⟩
    rintro (hstatus | hstatus)
    · simp [show phase.status = .inProgress from hstatus]
    · exact absurd hstatus hblocked

theorem insertPhases (h : db.AllDated) {phases : List CheckedPhase}
    (hphases : ∀ phase ∈ phases, phase.status.unstarted) :
    Yields (insertPhases db now newId planId phases actor) Db.AllDated := by
  unfold Plans.insertPhases
  refine .foldlM h ?_
  rintro db' ⟨phase, index⟩ hmem hdb'
  have hphase : phase ∈ phases := (List.mem_zipIdx hmem).2.2 ▸ List.getElem_mem _
  refine hdb'.insertPhase ?_ ?_
  · rcases hphases phase hphase with hstatus | hstatus <;> simp [hstatus]
  · rcases hphases phase hphase with hstatus | hstatus <;> simp [hstatus, PhaseStatus.isDone]

theorem create (h : db.AllDated) {input : CreatePlanInput}
    (hinput : ∀ phase ∈ input.phases, phase.StartsOpen) :
    Yields (create ptys db now newId input actor) Db.AllDated := by
  unfold Plans.create
  refine .skip fun _ => .skip fun _ => .skip fun _ => .skip fun _ => .skip fun _ => ?_
  refine .bind (yields_validateNewPhases hinput) fun phases hphases => ?_
  refine .bind phases_insertPlan fun db₁ h₁ => ?_
  refine .bind ((h.of_eq h₁).insertPhases hphases) fun db₂ h₂ => ?_
  split
  · exact phases_attachInTx.mono fun db₃ h₃ => h₂.of_eq h₃
  · exact .ok h₂

/-- A pending anchor is put under way, with its `started_at`. -/
theorem openBranchUnder (h : db.AllDated) {parentPlanId anchor : Uuid} {text : String} :
    (openBranchUnder now parentPlanId planId text actor db anchor).AllDated := by
  have hanchored : Db.AllDated { db with anchors := db.anchors ++ [⟨planId, anchor, now⟩] } := h
  refine hanchored.updatePhases ?_
  intro p hp hselected
  obtain ⟨-, hpending⟩ := of_decide_eq_true hselected
  refine ⟨?_, fun _ => rfl⟩
  have hcompleted := hp.completed
  rw [hpending] at hcompleted
  exact hcompleted

theorem foldl {α : Type} (turn : Db → α → Db) (l : List α) (h : db.AllDated)
    (hturn : ∀ db a, db.AllDated → (turn db a).AllDated) : (l.foldl turn db).AllDated := by
  induction l generalizing db with
  | nil => exact h
  | cons a l ih => exact ih (hturn db a h)

theorem branch (h : db.AllDated) {parseUuid : String → Option Uuid} {parentPlanId : Uuid}
    {input : BranchPlanInput} (hinput : ∀ phase ∈ input.phases, phase.StartsOpen) :
    Yields (branch parseUuid ptys db now newId parentPlanId input actor) Db.AllDated := by
  unfold Plans.branch
  refine .skip fun _ => .skip fun _ => .skip fun _ => .skip fun _ => .skip fun _ => ?_
  refine .bind (yields_validateNewPhases hinput) fun phases hphases => ?_
  refine .skip fun _ => .require fun _ => .skip fun anchors => ?_
  refine .bind phases_insertPlan fun db₁ h₁ => ?_
  refine .bind ((h.of_eq h₁).insertPhases hphases) fun db₂ h₂ => ?_
  have hopened : ∀ text, Db.AllDated (Plans.bumpRevision (anchors.foldl
      (Plans.openBranchUnder now parentPlanId (newId 0) text actor) db₂) now parentPlanId) :=
    fun text => (h₂.foldl _ anchors fun db _ hdb => hdb.openBranchUnder).of_eq rfl
  split
  · exact phases_attachInTx.mono fun db₃ h₃ => (hopened _).of_eq h₃
  · exact .ok (hopened _)

theorem addPhase (h : db.AllDated) {phase : NewPhase} (hblocked : phase.status ≠ some "blocked") :
    Yields (addPhase db now newId planId phase actor) Db.AllDated := by
  unfold Plans.addPhase
  refine .skip fun _ => .skip fun _ => .skip fun _ => ?_
  refine .bind validatePhaseStatus_text fun status hstatus => .skip fun size => .skip fun _ => ?_
  refine .bind (h.insertPhase ?_ ?_) fun db' hdb' => .ok (hdb'.of_eq rfl)
  · rintro rfl
    cases hrequested : phase.status with
    | none => simp [hrequested, PhaseStatus.text] at hstatus
    | some text =>
        rw [hrequested, Option.getD_some] at hstatus
        exact hblocked (hrequested.trans (congrArg some hstatus))
  · cases status <;> simp [PhaseStatus.isDone]

theorem movePhase (h : db.AllDated) {oldPosition requestedPosition : Int} :
    (movePhase db now planId phaseId oldPosition requestedPosition).AllDated := by
  have hmoved : ∀ (db : Db) (selected : PhaseRow → Bool) (set : PhaseRow → PhaseRow), db.AllDated →
      (∀ p, (set p).status = p.status ∧ (set p).startedAt = p.startedAt ∧
        (set p).completedAt = p.completedAt) → (db.updatePhases selected set).AllDated := by
    intro db selected set hdb hset
    refine hdb.updatePhases fun p hp _ => ?_
    obtain ⟨hstatus, hstarted, hcompleted⟩ := hset p
    constructor
    · rw [hstatus, hcompleted]
      exact hp.completed
    · rw [hstatus, hstarted]
      exact hp.started
  unfold Plans.movePhase
  dsimp only
  split
  · exact h
  · refine hmoved _ _ _ ?_ fun p => ⟨rfl, rfl, rfl⟩
    split
    · exact hmoved _ _ _ h fun p => ⟨rfl, rfl, rfl⟩
    · exact hmoved _ _ _ h fun p => ⟨rfl, rfl, rfl⟩

theorem updatePhase (h : db.AllDated) {input : UpdatePhaseInput} :
    Yields (updatePhase db now planId phaseId input actor) Db.AllDated := by
  unfold Plans.updatePhase
  refine .skip fun _ => .skip fun _ => .skip fun current => .skip fun title => ?_
  refine .skip fun description => .skip fun status => .skip fun statusNote => .skip fun size => ?_
  have hmoved : Db.AllDated (input.position.elim db fun position =>
      Plans.movePhase db now planId phaseId current.position position) := by
    cases input.position with
    | none => exact h
    | some position => exact h.movePhase
  refine .ok (of_eq (hmoved.updatePhases ?_) rfl)
  · intro p _ _
    constructor
    · cases status <;> simp [PhaseRow.setStatus, PhaseStatus.isDone]
    · rintro (hstatus | hstatus)
      · change status = .inProgress at hstatus
        simp [PhaseRow.setStatus, hstatus]
      · change status = .blocked at hstatus
        simp [PhaseRow.setStatus, hstatus]

theorem skipRemainingPhases (h : db.AllDated) :
    (skipRemainingPhases db now planId actor note).AllDated := by
  refine h.foldl _ _ fun db phase hdb => ?_
  refine of_eq (hdb.updatePhases (c := fun p => decide (p.planId = planId ∧ p.id = phase.id))
    (f := fun p => { p with
      status := .skipped
      statusNote := note.or p.statusNote
      completedAt := some now
      updatedAt := now }) fun p _ _ => ?_) rfl
  exact ⟨by simp [PhaseStatus.isDone], by rintro (hstatus | hstatus) <;> cases hstatus⟩

/-- A released anchor was blocked, so its `started_at` is set. -/
theorem releaseAnchors (h : db.AllDated) {parentId : Uuid} :
    (releaseAnchors db now planId parentId actor note).AllDated := by
  refine foldl _ _ (h.updatePhases fun p hp hselected => ?_) fun db phaseId hdb => hdb.of_eq rfl
  have hblocked : p.status = .blocked := by
    unfold Db.isBlockedAnchor at hselected
    rw [Bool.and_eq_true] at hselected
    exact of_decide_eq_true hselected.1
  have hcompleted := hp.completed
  rw [hblocked] at hcompleted
  exact ⟨hcompleted, fun _ => hp.started (.inr hblocked)⟩

theorem update (h : db.AllDated) {input : UpdatePlanInput} :
    Yields (update ptys db now planId input actor) Db.AllDated := by
  unfold Plans.update
  refine .skip fun _ => .skip fun current => .skip fun title => .skip fun summary => ?_
  refine .skip fun guidance => .skip fun status => .skip fun note => ?_
  refine .require fun _ => .require fun _ => .require fun _ => ?_
  have hskipped : (if !status.isOpen && input.skipRemaining then
      Plans.skipRemainingPhases db now planId actor note else db).AllDated := by
    split
    · exact h.skipRemainingPhases
    · exact h
  have hlogged : ∀ eventType (set : PlanRow → PlanRow), Db.AllDated (insertEvent
      (recordChange ((if !status.isOpen && input.skipRemaining then
        Plans.skipRemainingPhases db now planId actor note else db).updatePlan planId set) now
        planId actor (some current.guidance) guidance note) now planId none eventType actor
      (some current.status.text) (some status.text) note) :=
    fun eventType set => hskipped.of_eq phases_recordChange
  refine .ite (fun _ => .ok (hlogged _ _)) fun _ => phases_closeBranchIntoParent.mono ?_
  rintro db' (hsame | ⟨parentId, hreleased⟩)
  · exact (hlogged _ _).of_eq hsame
  · exact (hlogged _ _).releaseAnchors.of_eq hreleased

theorem attach (h : db.AllDated) {ptyId : Uuid} :
    Yields (attach ptys db now planId ptyId actor) Db.AllDated := by
  unfold Plans.attach
  exact .skip fun _ => .skip fun _ => phases_attachInTx.mono fun db' hdb' => h.of_eq hdb'

theorem detach (h : db.AllDated) {ptyId : Uuid} :
    Yields (detach db now planId ptyId actor) Db.AllDated := by
  unfold Plans.detach
  exact .skip fun _ => .ite (fun _ => .ok (h.of_eq rfl)) fun _ => .ok h

end Db.AllDated

/-! ## Every run -/

/-- Phases are not created as done or blocked, and no phase is added as blocked. -/
def Operation.StartsDated : Operation → Prop
  | .create input => ∀ phase ∈ input.phases, phase.StartsOpen
  | .branch _ input => ∀ phase ∈ input.phases, phase.StartsOpen
  | .addPhase _ phase => phase.status ≠ some "blocked"
  | .update .. | .updatePhase .. | .attach .. | .detach .. => True

def StartsDated (_ : Store) (call : Call) : Prop := call.operation.StartsDated

theorem dated_preserved (parseUuid : String → Option Uuid) :
    Preserved (planStep parseUuid) StartsDated fun s => s.db.AllDated := by
  intro s call s' h hok hstep
  have hkeeps : Yields (call.run parseUuid s.db) Db.AllDated := by
    unfold StartsDated at hok
    unfold Call.run
    split
    · rename_i input hoperation
      rw [hoperation] at hok
      exact h.create hok
    · rename_i parentPlanId input hoperation
      rw [hoperation] at hok
      exact h.branch hok
    · exact h.update
    · rename_i planId phase hoperation
      rw [hoperation] at hok
      exact h.addPhase hok
    · exact h.updatePhase
    · exact h.attach
    · exact h.detach
  unfold planStep at hstep
  split at hstep
  · split at hstep
    · rename_i db hrun
      cases hstep
      exact hkeeps db hrun
    · cases hstep
      exact h
  · cases hstep

/-- **The timestamps of phases agree with their status** in every state of a run in which no phase
starts as completed or skipped with its plan, and none as blocked: `completed_at` is set exactly
for the phases that are done, `started_at` for those in progress or blocked. The completion
statistics miss no completed phase but those completed more than 28 days ago. -/
theorem phases_dated (parseUuid : String → Option Uuid) (clock : Timestamp) (s : Store)
    (hrun : Run (planStep parseUuid) StartsDated (.new clock) s) (p : PhaseRow)
    (hp : p ∈ s.db.phases) :
    p.Dated ∧ ∀ now, p.status = .completed → throughputEntry now p = none →
      ∃ completedAt ∈ p.completedAt, completedAt < now - 28 * 86400000000 := by
  have hdated : s.db.AllDated := by
    refine Run.invariant (I := fun s => s.db.AllDated) (dated_preserved parseUuid) hrun ?_
    intro q hq
    cases hq
  exact ⟨hdated p hp, fun now => (hdated p hp).throughputEntry⟩

instance (phase : NewPhase) : Decidable phase.StartsOpen :=
  inferInstanceAs (Decidable (_ ∧ _ ∧ _))

instance (s : Store) (call : Call) : Decidable (StartsDated s call) := by
  unfold StartsDated Operation.StartsDated
  split <;> infer_instance

/-- A phase of a plan is blocked and completed in the end. -/
def finishedPhase : List Call :=
  branched.take 1 ++ [sampleCall 2 0 (.updatePhase 1 2 { status := some "blocked" }),
    sampleCall 3 0 (.updatePhase 1 2 { status := some "completed" })]

theorem phases_dated_finished :
    ∃ s, runList (restrict (planStep fun _ => none) StartsDated) (.new 0) finishedPhase = some s ∧
      ∃ p ∈ s.db.phases, p.status = .completed ∧ p.completedAt.isSome := by
  have hphase : ∃ s ∈ runList (restrict (planStep fun _ => none) StartsDated) (.new 0)
      finishedPhase, ∃ p ∈ s.db.phases, p.status = .completed := by decide +kernel
  obtain ⟨s, hs, p, hp, hcompleted⟩ := hphase
  have hdated := (phases_dated _ 0 s (.of_restrict _ hs) p hp).1
  exact ⟨s, hs, p, hp, hcompleted, hdated.completed.mpr (by rw [hcompleted]; rfl)⟩

/-- A plan is published with a phase that is completed already, and one that is blocked. -/
def finishedAtStart : List Call :=
  [sampleCall 0 1 (.create
    { repoName := "r", title := "plan",
      phases := [{ title := "done", status := some "completed" },
        { title := "waiting", status := some "blocked" }] })]

theorem finishedAtStart_undated :
    ∃ s, Run (planStep fun _ => none) anyStep (.new 0) s ∧
      (∃ p ∈ s.db.phases, p.status = .completed ∧ p.completedAt = none ∧
        throughputEntry 0 p = none) ∧
      ∃ p ∈ s.db.phases, p.status = .blocked ∧ p.startedAt = none := by
  have hphases : ∃ s ∈ runList (planStep fun _ => none) (.new 0) finishedAtStart,
      (∃ p ∈ s.db.phases, p.status = .completed ∧ p.completedAt = none ∧
        throughputEntry 0 p = none) ∧
        ∃ p ∈ s.db.phases, p.status = .blocked ∧ p.startedAt = none := by decide +kernel
  obtain ⟨s, hs, hp⟩ := hphases
  exact ⟨s, .of_runList _ hs, hp⟩

end Sulion.Plans
