import Sulion.Plans.Operations

set_option autoImplicit false

/-! # Trees of plans

Plans form a forest by their parents. Closing a plan is refused while a branch under it is open,
and a branch is opened under an open plan only. A closed plan can be made active or paused again,
and nothing looks at its parent then: `openPlans_under_openPlans` holds for the runs that do not
do so under a closed plan, and `reopened_under_closed` is a run that does.
-/

namespace Sulion.Plans

open Rust Transition

/-! ## Nodes -/

/-- What the tree is about: a plan, its parent and its status. -/
structure Node where
  id : Uuid
  parent : Option Uuid
  status : PlanStatus

def PlanRow.node (p : PlanRow) : Node := ⟨p.id, p.parentPlanId, p.status⟩

def Db.tree (db : Db) : List Node := db.plans.map PlanRow.node

/-- The node with its status set, if it is the plan's. -/
def Node.setStatus (planId : Uuid) (status : PlanStatus) (n : Node) : Node :=
  if n.id = planId then { n with status := status } else n

/-- Ids are distinct, and the parent of an open plan is open. -/
structure OpenAbove (t : List Node) : Prop where
  ids : t.Pairwise fun m n => m.id ≠ n.id
  parent : ∀ n ∈ t, n.status.isOpen → ∀ m ∈ t, n.parent = some m.id → m.status.isOpen

variable {t : List Node} {planId : Uuid} {status : PlanStatus}

/-- An open plan is added, under an open plan or none. -/
theorem OpenAbove.insert (h : OpenAbove t) {parent : Option Uuid}
    (hnew : ∀ n ∈ t, n.id ≠ planId) (hparent : ∀ m ∈ t, parent = some m.id → m.status.isOpen) :
    OpenAbove (t ++ [⟨planId, parent, .active⟩]) where
  ids := by
    refine List.pairwise_append.mpr ⟨h.ids, List.pairwise_singleton _ _, ?_⟩
    intro m hm n hn
    rw [List.mem_singleton.mp hn]
    exact hnew m hm
  parent := by
    intro n hn hopen m hm hnm
    rcases List.mem_append.mp hm with hm | hm
    · rcases List.mem_append.mp hn with hn | hn
      · exact h.parent n hn hopen m hm hnm
      · rw [List.mem_singleton.mp hn] at hnm
        exact hparent m hm hnm
    · rw [List.mem_singleton.mp hm]
      rfl

/-- The status of a plan is set: to an open one under an open parent or none, or to a closed one
over no open branch. -/
theorem OpenAbove.setStatus (h : OpenAbove t)
    (hopen : status.isOpen → ∀ n ∈ t, n.id = planId → ∀ m ∈ t, n.parent = some m.id →
      m.status.isOpen)
    (hclosed : ¬ status.isOpen → ∀ n ∈ t, n.parent = some planId → ¬ n.status.isOpen) :
    OpenAbove (t.map (Node.setStatus planId status)) := by
  have hid : ∀ n : Node, (n.setStatus planId status).id = n.id := by
    intro n
    unfold Node.setStatus
    split <;> rfl
  have hpar : ∀ n : Node, (n.setStatus planId status).parent = n.parent := by
    intro n
    unfold Node.setStatus
    split <;> rfl
  constructor
  · exact List.pairwise_map.mpr (h.ids.imp fun {m n} hne => by rwa [hid, hid])
  · intro n' hn' hn'open m' hm' hparent
    obtain ⟨n, hn, rfl⟩ := List.mem_map.mp hn'
    obtain ⟨m, hm, rfl⟩ := List.mem_map.mp hm'
    rw [hid, hpar] at hparent
    -- The parent is open unless it is the plan that was closed.
    have hm_open : m.id ≠ planId → m.status.isOpen := by
      intro hmid
      by_cases hnid : n.id = planId
      · simp only [Node.setStatus, hnid, if_true] at hn'open
        exact hopen hn'open n hn hnid m hm hparent
      · simp only [Node.setStatus, hnid, if_false] at hn'open
        exact h.parent n hn hn'open m hm hparent
    by_cases hmid : m.id = planId
    · simp only [Node.setStatus, hmid, if_true]
      by_contra hstatus
      have hchild := hclosed hstatus n hn (hmid ▸ hparent)
      by_cases hnid : n.id = planId
      · simp only [Node.setStatus, hnid, if_true] at hn'open
        exact hstatus hn'open
      · simp only [Node.setStatus, hnid, if_false] at hn'open
        exact hchild hn'open
    · simp only [Node.setStatus, hmid, if_false]
      exact hm_open hmid

/-! ## What the statements do to the tree -/

section statements

variable {db : Db} {now : Timestamp} {actor : PlanActor} {ptys : Uuid → Option PtySession}

theorem tree_updatePlan (set : PlanRow → PlanRow) (h : ∀ p, (set p).node = p.node) :
    (db.updatePlan planId set).tree = db.tree := by
  unfold Db.tree Db.updatePlan
  rw [List.map_map]
  refine List.map_congr_left fun p _ => ?_
  rw [Function.comp_apply]
  split
  · exact h p
  · rfl

@[simp] theorem tree_bumpRevision : (bumpRevision db now planId).tree = db.tree :=
  tree_updatePlan _ fun _ => rfl

@[simp] theorem tree_insertEvent {phaseId : Option Uuid} {eventType : EventType}
    {fromStatus toStatus note : Option String} :
    (insertEvent db now planId phaseId eventType actor fromStatus toStatus note).tree = db.tree :=
  rfl

@[simp] theorem tree_recordChange {before : Option PlanGuidance} {after : PlanGuidance}
    {note : Option String} :
    (recordChange db now planId actor before after note).tree = db.tree := by
  unfold recordChange
  split <;> rfl

@[simp] theorem tree_updatePhases {selected : PhaseRow → Bool} {set : PhaseRow → PhaseRow} :
    (db.updatePhases selected set).tree = db.tree := rfl

@[simp] theorem tree_detachAll {selected : Attachment → Bool} :
    (db.detachAll now selected).tree = db.tree := rfl

/-- A loop over pure turns. -/
theorem tree_foldl {α : Type} (turn : Db → α → Db) (h : ∀ db a, (turn db a).tree = db.tree)
    (l : List α) : (l.foldl turn db).tree = db.tree := by
  induction l generalizing db with
  | nil => rfl
  | cons a l ih => exact ih.trans (h db a)

theorem tree_leaveOldPlan (db : Db) (now : Timestamp) (actor : PlanActor) (ptyId : Uuid) :
    (leaveOldPlan db now ptyId actor).tree = db.tree := by
  unfold leaveOldPlan
  split
  · rfl
  · rw [tree_insertEvent, tree_bumpRevision, tree_detachAll]

theorem tree_attachInTx {ptyId : Uuid} {bump : Bool} :
    Yields (attachInTx ptys db now planId ptyId actor bump) fun db' => db'.tree = db.tree := by
  unfold attachInTx
  refine .skip fun plan => .skip fun session => .require fun _ =>
    .ite (fun _ => .ok rfl) fun _ => ?_
  refine .ok ?_
  rw [tree_insertEvent, ← tree_leaveOldPlan db now actor ptyId]
  cases bump with
  | false => rfl
  | true => exact tree_bumpRevision

theorem tree_insertPhase {phaseId : Uuid} {position : Int} {phase : CheckedPhase}
    {completedAt : Option Timestamp} :
    Yields (insertPhase db now planId phaseId position phase actor completedAt)
      fun db' => db'.tree = db.tree := by
  unfold insertPhase
  exact .require fun _ => .ok rfl

theorem tree_insertPhases {newId : Nat → Uuid} {phases : List CheckedPhase} :
    Yields (insertPhases db now newId planId phases actor) fun db' => db'.tree = db.tree := by
  unfold insertPhases
  refine .foldlM rfl ?_
  rintro db' ⟨phase, index⟩ _ hdb'
  exact tree_insertPhase.mono fun db'' h => h.trans hdb'

theorem tree_insertPlan {repoName title summary : String} {guidance : PlanGuidance}
    {parent : Option Uuid} {rootPlanId : Uuid} {depth : Nat} :
    Yields (insertPlan db now planId repoName title summary guidance parent rootPlanId depth actor)
      fun db' => (∀ n ∈ db.tree, n.id ≠ planId) ∧
        db'.tree = db.tree ++ [⟨planId, parent, .active⟩] := by
  unfold insertPlan
  refine .require fun hfree => .ok ⟨?_, ?_⟩
  · intro n hn
    obtain ⟨p, hp, rfl⟩ := List.mem_map.mp hn
    exact of_decide_eq_true (List.all_eq_true.mp hfree p hp)
  · simp only [tree_recordChange, tree_insertEvent]
    unfold Db.tree
    rw [List.map_append]
    rfl

theorem tree_openBranchUnder {parentPlanId anchor : Uuid} {note : String} :
    (openBranchUnder now parentPlanId planId note actor db anchor).tree = db.tree := rfl

theorem tree_skipRemainingPhases {note : Option String} :
    (skipRemainingPhases db now planId actor note).tree = db.tree :=
  tree_foldl (skipPhase now planId actor note) (fun _ _ => rfl) _

theorem tree_releaseAnchors {parentId : Uuid} {note : Option String} :
    (releaseAnchors db now planId parentId actor note).tree = db.tree :=
  (tree_foldl (releaseAnchor now parentId actor note) (fun _ _ => rfl) _).trans rfl

theorem tree_closeBranchIntoParent {parent : Option Uuid} {note : Option String} :
    Yields (closeBranchIntoParent ptys db now planId parent status actor note)
      fun db' => db'.tree = db.tree := by
  unfold closeBranchIntoParent
  split
  · exact .ok rfl
  · rename_i parentId _
    have hreleased : (if status = .completed then releaseAnchors db now planId parentId actor note
        else db).tree = db.tree := by
      split
      · exact tree_releaseAnchors
      · rfl
    refine .bind (P := fun db' => db'.tree = db.tree) (.foldlM hreleased ?_) ?_
    · intro db' ptyId _ hdb'
      unfold popPty
      refine .ite (fun _ => ?_) fun _ => .ok hdb'
      exact tree_attachInTx.mono fun db'' h => h.trans hdb'
    · intro db' hdb'
      exact .ok (by simp [hdb'])

end statements

/-! ## What the operations do to the tree -/

section operations

variable {db : Db} {now : Timestamp} {actor : PlanActor} {ptys : Uuid → Option PtySession}
  {newId : Nat → Uuid} {parseUuid : String → Option Uuid}

theorem plan_mem {p : PlanRow} (h : db.plan planId = some p) : p ∈ db.plans ∧ p.id = planId :=
  ⟨List.mem_of_find?_eq_some h, by simpa using List.find?_some h⟩

theorem yields_plan {error : String} : Yields ((db.plan planId).elim (.error error) .ok)
    fun p => p ∈ db.plans ∧ p.id = planId := by
  intro p hp
  cases hplan : db.plan planId with
  | none =>
      rw [hplan] at hp
      cases hp
  | some q =>
      rw [hplan] at hp
      obtain rfl := Except.ok.inj hp
      exact plan_mem hplan

theorem yields_ensurePlanOpen : Yields (ensurePlanOpen db planId)
    fun p => (p ∈ db.plans ∧ p.id = planId) ∧ p.status.isOpen := by
  unfold ensurePlanOpen
  refine .bind yields_plan fun p hp => .require fun hopen => .ok ⟨hp, hopen⟩

/-- In a table of plans with distinct ids a node is known by its id. -/
theorem OpenAbove.eq_node (h : OpenAbove db.tree) {p : PlanRow} (hp : p ∈ db.plans) {n : Node}
    (hn : n ∈ db.tree) (hid : n.id = p.id) : n = p.node :=
  List.inj_on_of_nodup_map (List.pairwise_map.mpr h.ids) hn (List.mem_map_of_mem hp) hid

theorem openAbove_create (h : OpenAbove db.tree) {input : CreatePlanInput} :
    Yields (create ptys db now newId input actor) fun db' => OpenAbove db'.tree := by
  unfold create
  refine .skip fun _ => .skip fun _ => .skip fun _ => .skip fun _ => .skip fun _ =>
    .skip fun _ => ?_
  refine .bind tree_insertPlan fun db₁ h₁ => .bind tree_insertPhases fun db₂ h₂ => ?_
  have hnew : OpenAbove db₂.tree := by
    rw [h₂, h₁.2]
    exact h.insert h₁.1 fun m _ hm => by cases hm
  split
  · exact tree_attachInTx.mono fun db₃ h₃ => h₃ ▸ hnew
  · exact .ok hnew

theorem openAbove_branch (h : OpenAbove db.tree) {parentPlanId : Uuid} {input : BranchPlanInput} :
    Yields (branch parseUuid ptys db now newId parentPlanId input actor)
      fun db' => OpenAbove db'.tree := by
  unfold branch
  refine .skip fun _ => .skip fun _ => .skip fun _ => .skip fun _ => .skip fun _ =>
    .skip fun _ => ?_
  refine .bind yields_ensurePlanOpen fun parent hparent => .require fun _ => .skip fun anchors => ?_
  refine .bind tree_insertPlan fun db₁ h₁ => .bind tree_insertPhases fun db₂ h₂ => ?_
  have hnew : ∀ note, OpenAbove (bumpRevision (anchors.foldl
      (openBranchUnder now parentPlanId (newId 0) note actor) db₂) now parentPlanId).tree := by
    intro note
    rw [tree_bumpRevision, tree_foldl _ fun _ _ => tree_openBranchUnder, h₂, h₁.2]
    refine h.insert h₁.1 fun m hm hid => ?_
    rw [h.eq_node hparent.1.1 hm ((Option.some.inj hid).symm.trans hparent.1.2.symm)]
    exact hparent.2
  split
  · exact tree_attachInTx.mono fun db₃ h₃ => h₃ ▸ hnew _
  · exact .ok (hnew _)

theorem yields_validatePlanStatus {text : String} :
    Yields (validatePlanStatus text) fun status => text = status.text := by
  intro status h
  unfold validatePlanStatus at h
  split at h <;> cases h <;> rfl

/-- No open plan has the plan as its parent. -/
theorem closed_of_openBranches (h : (db.openBranches planId).isEmpty) {n : Node} (hn : n ∈ db.tree)
    (hparent : n.parent = some planId) : ¬ n.status.isOpen := by
  intro hopen
  obtain ⟨p, hp, rfl⟩ := List.mem_map.mp hn
  have hmem : p ∈ db.openBranches planId := by
    unfold Db.openBranches
    rw [List.mem_mergeSort]
    exact List.mem_filter.mpr ⟨hp, by simpa using ⟨hparent, hopen⟩⟩
  rw [List.isEmpty_iff.mp h] at hmem
  cases hmem

theorem tree_setStatus (set : PlanRow → PlanRow)
    (h : ∀ p, (set p).node = ⟨p.id, p.parentPlanId, status⟩) :
    (db.updatePlan planId set).tree = db.tree.map (Node.setStatus planId status) := by
  unfold Db.tree Db.updatePlan
  rw [List.map_map, List.map_map]
  refine List.map_congr_left fun p _ => ?_
  simp only [Function.comp_apply, Node.setStatus]
  by_cases hid : p.id = planId
  · have hnode : p.node.id = planId := hid
    rw [if_pos hid, if_pos hnode, h]
    rfl
  · have hnode : p.node.id ≠ planId := hid
    rw [if_neg hid, if_neg hnode]

/-- A closed plan is made active or paused while its parent is closed. -/
def ReopensUnderClosed (db : Db) (planId : Uuid) (input : UpdatePlanInput) : Prop :=
  (input.status = some "active" ∨ input.status = some "paused") ∧
    ∃ current ∈ db.plans, current.id = planId ∧ ¬ current.status.isOpen ∧
      ∃ parent ∈ db.plans, current.parentPlanId = some parent.id ∧ ¬ parent.status.isOpen

theorem openAbove_update (h : OpenAbove db.tree) {input : UpdatePlanInput}
    (hreopen : ¬ ReopensUnderClosed db planId input) :
    Yields (update ptys db now planId input actor) fun db' => OpenAbove db'.tree := by
  unfold update
  refine .skip fun _ => .bind yields_plan fun current hcurrent => ?_
  refine .skip fun title => .skip fun summary => .skip fun guidance => ?_
  refine .bind yields_validatePlanStatus fun status hstatus => .skip fun note => ?_
  refine .require fun _ => .require fun hbranches => .require fun _ => ?_
  have hset : OpenAbove (db.tree.map (Node.setStatus planId status)) := by
    apply h.setStatus
    · intro hopen n hn hid m hm hparent
      rw [h.eq_node hcurrent.1 hn (hid.trans hcurrent.2.symm)] at hparent
      by_cases hcurrent_open : current.status.isOpen
      · exact h.parent _ (List.mem_map_of_mem hcurrent.1) hcurrent_open m hm hparent
      · -- The call asks for an open status, so the parent is open.
        by_contra hclosed
        obtain ⟨parent, hp, rfl⟩ := List.mem_map.mp hm
        refine hreopen ⟨?_, current, hcurrent.1, hcurrent.2, hcurrent_open, parent, hp, hparent,
          hclosed⟩
        cases hinput : input.status with
        | none =>
            rw [hinput, Option.getD_none] at hstatus
            cases hs : current.status <;> cases status <;> rw [hs] at hstatus hcurrent_open <;>
              simp_all [PlanStatus.text, PlanStatus.isOpen]
        | some text =>
            rw [hinput, Option.getD_some] at hstatus
            rw [hstatus]
            cases status <;> simp_all [PlanStatus.text, PlanStatus.isOpen]
    · intro hclosed n hn hparent
      have hempty : (db.openBranches planId).isEmpty := by simpa [hclosed] using hbranches
      exact closed_of_openBranches hempty hn hparent
  have hskipped : (if !status.isOpen && input.skipRemaining then
      skipRemainingPhases db now planId actor note else db).tree = db.tree := by
    split
    · exact tree_skipRemainingPhases
    · rfl
  refine .ite (fun _ => .ok ?_) fun _ => tree_closeBranchIntoParent.mono fun db' hdb' => ?_
  · rw [tree_insertEvent, tree_recordChange, tree_setStatus _ fun _ => rfl, hskipped]
    exact hset
  · rw [hdb', tree_insertEvent, tree_recordChange, tree_setStatus _ fun _ => rfl, hskipped]
    exact hset

theorem tree_addPhase {phase : NewPhase} :
    Yields (addPhase db now newId planId phase actor) fun db' => db'.tree = db.tree := by
  unfold addPhase
  refine .skip fun _ => .skip fun _ => .skip fun _ => .skip fun _ => .skip fun _ =>
    .skip fun _ => ?_
  refine .bind tree_insertPhase fun db' hdb' => .ok ?_
  rw [tree_bumpRevision, hdb']

theorem tree_movePhase {phaseId : Uuid} {oldPosition requestedPosition : Int} :
    (movePhase db now planId phaseId oldPosition requestedPosition).tree = db.tree := by
  unfold movePhase
  dsimp only
  split
  · rfl
  · rw [tree_updatePhases]
    split <;> rfl

theorem tree_updatePhase {phaseId : Uuid} {input : UpdatePhaseInput} :
    Yields (updatePhase db now planId phaseId input actor) fun db' => db'.tree = db.tree := by
  unfold updatePhase
  refine .skip fun _ => .skip fun _ => .skip fun _ => .skip fun _ => .skip fun _ =>
    .skip fun _ => ?_
  refine .skip fun _ => .skip fun _ => .ok ?_
  rw [tree_insertEvent, tree_bumpRevision, tree_updatePhases]
  cases input.position with
  | none => rfl
  | some position => exact tree_movePhase

theorem tree_attach {ptyId : Uuid} :
    Yields (attach ptys db now planId ptyId actor) fun db' => db'.tree = db.tree := by
  unfold attach
  exact .skip fun _ => .skip fun _ => tree_attachInTx

theorem tree_detach {ptyId : Uuid} :
    Yields (detach db now planId ptyId actor) fun db' => db'.tree = db.tree := by
  unfold detach
  refine .skip fun _ => .ite (fun _ => .ok ?_) fun _ => .ok rfl
  rw [tree_insertEvent, tree_bumpRevision, tree_detachAll]

end operations

/-! ## Every run -/

/-- An operation that does not reopen a plan under a closed one. -/
def Operation.KeepsClosed (db : Db) : Operation → Prop
  | .update planId input => ¬ ReopensUnderClosed db planId input
  | _ => True

instance (db : Db) (planId : Uuid) (input : UpdatePlanInput) :
    Decidable (ReopensUnderClosed db planId input) :=
  inferInstanceAs (Decidable (_ ∧ ∃ current ∈ db.plans, current.id = planId ∧
    ¬ current.status.isOpen ∧ ∃ parent ∈ db.plans, current.parentPlanId = some parent.id ∧
      ¬ parent.status.isOpen))

instance Operation.decidableKeepsClosed (db : Db) :
    (operation : Operation) → Decidable (operation.KeepsClosed db)
  | .update planId input => inferInstanceAs (Decidable (¬ ReopensUnderClosed db planId input))
  | .create _ | .branch _ _ | .addPhase _ _ | .updatePhase _ _ _ | .attach _ _ | .detach _ _ =>
      inferInstanceAs (Decidable True)

/-- The steps that do not reopen a plan under a closed one. -/
def KeepsClosed (s : Store) (call : Call) : Prop := call.operation.KeepsClosed s.db

instance (s : Store) (call : Call) : Decidable (KeepsClosed s call) :=
  inferInstanceAs (Decidable (call.operation.KeepsClosed s.db))

theorem openAbove_preserved (parseUuid : String → Option Uuid) :
    Preserved (planStep parseUuid) KeepsClosed fun s => OpenAbove s.db.tree := by
  intro s call s' h hok hstep
  unfold planStep at hstep
  split at hstep
  swap
  · cases hstep
  split at hstep
  swap
  · cases hstep
    exact h
  rename_i db hrun
  cases hstep
  change OpenAbove db.tree
  have hkeeps : Yields (call.run parseUuid s.db) fun db => OpenAbove db.tree := by
    unfold Call.run
    split
    · exact openAbove_create h
    · exact openAbove_branch h
    · rename_i hoperation
      unfold KeepsClosed at hok
      rw [hoperation] at hok
      exact openAbove_update h hok
    · exact tree_addPhase.mono fun _ heq => heq ▸ h
    · exact tree_updatePhase.mono fun _ heq => heq ▸ h
    · exact tree_attach.mono fun _ heq => heq ▸ h
    · exact tree_detach.mono fun _ heq => heq ▸ h
  exact hkeeps db hrun

/-- `q` is the parent of `p`. -/
def Db.Parent (db : Db) (p q : PlanRow) : Prop := q ∈ db.plans ∧ p.parentPlanId = some q.id

/-- **No open plan hangs under a closed one.** In every run in which no call reopens a closed
plan under a closed parent, every ancestor of a plan that is active or paused is active or
paused. -/
theorem openPlans_under_openPlans (parseUuid : String → Option Uuid) (clock : Timestamp)
    (s : Store) (hrun : Run (planStep parseUuid) KeepsClosed (.new clock) s) :
    ∀ p ∈ s.db.plans, p.status.isOpen → ∀ q, Relation.TransGen s.db.Parent p q →
      q.status.isOpen := by
  have h : OpenAbove s.db.tree :=
    hrun.invariant (I := fun s => OpenAbove s.db.tree) (openAbove_preserved parseUuid)
      ⟨.nil, fun n hn => by cases hn⟩
  have hparent : ∀ p ∈ s.db.plans, p.status.isOpen → ∀ q, s.db.Parent p q → q.status.isOpen := by
    intro p hp hopen q hq
    exact h.parent p.node (List.mem_map_of_mem hp) hopen q.node (List.mem_map_of_mem hq.1) hq.2
  intro p hp hopen q hpq
  induction hpq with
  | single hq => exact hparent p hp hopen _ hq
  | tail hpr hq ih =>
      have hmem : ∀ {r}, Relation.TransGen s.db.Parent p r → r ∈ s.db.plans := by
        intro r hr
        cases hr with
        | single hr => exact hr.1
        | tail _ hr => exact hr.1
      exact hparent _ (hmem hpr) ih _ hq

/-- A call of the user at one time; ids start at a number. -/
def sampleCall (time : Timestamp) (firstId : Nat) (operation : Operation) : Call :=
  ⟨time, time, fun _ => none, fun i => BitVec.ofNat 128 (firstId + i), ⟨"user", none, none⟩,
    operation⟩

/-- A plan `1` with a branch `11` under its phase `2`. -/
def branched : List Call :=
  [sampleCall 0 1 (.create { repoName := "r", title := "plan", phases := [{ title := "phase" }] }),
    sampleCall 1 11 (.branch 1 { title := "branch", phases := [{ title := "step" }] })]

/-- The branch is closed, and then the plan. -/
def closedTree : List Call :=
  branched ++ [sampleCall 2 0 (.update 11 { status := some "canceled" }),
    sampleCall 3 0 (.update 1 { status := some "canceled" })]

theorem openPlans_under_openPlans_reopened :
    ∃ s, runList (restrict (planStep fun _ => none) KeepsClosed) (.new 0)
        (closedTree ++ [sampleCall 4 0 (.update 1 { status := some "active" })]) = some s ∧
      ∀ p ∈ s.db.plans, p.status.isOpen → ∀ q, Relation.TransGen s.db.Parent p q →
        q.status.isOpen := by
  have hsome : (runList (restrict (planStep fun _ => none) KeepsClosed) (.new 0)
      (closedTree ++ [sampleCall 4 0 (.update 1 { status := some "active" })])).isSome := by
    decide +kernel
  obtain ⟨s, hs⟩ := Option.isSome_iff_exists.mp hsome
  exact ⟨s, hs, openPlans_under_openPlans _ _ s (.of_restrict _ hs)⟩

/-- The branch is reopened under the closed plan. -/
def reopenedBranch : List Call :=
  closedTree ++ [sampleCall 4 0 (.update 11 { status := some "active" })]

theorem reopened_under_closed :
    ∃ s, Run (planStep fun _ => none) anyStep (.new 0) s ∧
      ∃ p ∈ s.db.plans, p.status.isOpen ∧ ∃ q, Relation.TransGen s.db.Parent p q ∧
        ¬ q.status.isOpen := by
  have hsome : (runList (planStep fun _ => none) (.new 0) reopenedBranch).isSome := by
    decide +kernel
  have hopen : ∃ p ∈ ((runList (planStep fun _ => none) (.new 0) reopenedBranch).get
      (by decide +kernel)).db.plans, p.status.isOpen ∧
        ∃ q ∈ ((runList (planStep fun _ => none) (.new 0) reopenedBranch).get
          (by decide +kernel)).db.plans, p.parentPlanId = some q.id ∧ ¬ q.status.isOpen := by
    decide +kernel
  obtain ⟨p, hp, hpopen, q, hq, hparent, hclosed⟩ := hopen
  exact ⟨_, .of_runList reopenedBranch (Option.some_get hsome).symm, p, hp, hpopen, q,
    .single ⟨hq, hparent⟩, hclosed⟩

end Sulion.Plans
