import Sulion.Lib.Shifts
import Sulion.Plans.PhaseRows

set_option autoImplicit false

/-! # Positions of phases

The phases of a plan are numbered `1..n`. A phase is added at the end, and moving one shifts the
phases between its old and its new place. `Placed` is the invariant of the numbering; the writers
that do not number phases keep every place and the ids of the plans (`SamePlaces`).
-/

namespace Sulion.Plans

open Transition

/-! ## Places -/

/-- The key and the number of a phase. -/
structure Place where
  id : Uuid
  planId : Uuid
  position : Int
  deriving DecidableEq

def PhaseRow.place (p : PhaseRow) : Place := ⟨p.id, p.planId, p.position⟩

def Db.places (db : Db) : List Place := db.phases.map PhaseRow.place

def Db.planIds (db : Db) : List Uuid := db.plans.map (·.id)

/-- The places in one plan. -/
def placesOf (places : List Place) (planId : Uuid) : List Place :=
  places.filter fun p => decide (p.planId = planId)

/-- Phases have ids of their own and belong to plans, and in each plan the `n` phases have
different positions between `1` and `n`. -/
structure Placed (planIds : List Uuid) (places : List Place) : Prop where
  ids : places.Pairwise fun p q => p.id ≠ q.id
  owned : ∀ p ∈ places, p.planId ∈ planIds
  distinct : places.Pairwise fun p q => p.planId = q.planId → p.position ≠ q.position
  bounds : ∀ p ∈ places, 1 ≤ p.position ∧ p.position ≤ (placesOf places p.planId).length

variable {planIds : List Uuid} {places : List Place} {planId phaseId : Uuid}

namespace Placed

theorem empty : Placed planIds [] := by
  constructor <;> simp

theorem mono (h : Placed planIds places) {more : List Uuid} (hsub : planIds ⊆ more) :
    Placed more places :=
  { h with owned := fun p hp => hsub (h.owned p hp) }

/-- **The positions of a plan are `1..n`.** -/
theorem perm (h : Placed planIds places) (planId : Uuid) :
    ((placesOf places planId).map (·.position)).Perm
      (placesUpTo (placesOf places planId).length) := by
  have hnodup : ((placesOf places planId).map (·.position)).Nodup := by
    refine List.pairwise_map.mpr ?_
    refine List.Pairwise.imp_of_mem ?_ (h.distinct.filter _)
    intro p q hp hq hne
    have hpPlan : p.planId = planId := of_decide_eq_true (List.mem_filter.mp hp).2
    have hqPlan : q.planId = planId := of_decide_eq_true (List.mem_filter.mp hq).2
    exact hne (hpPlan.trans hqPlan.symm)
  have hperm := perm_placesUpTo hnodup ?_
  · rwa [List.length_map] at hperm
  · intro a ha
    obtain ⟨p, hp, rfl⟩ := List.mem_map.mp ha
    obtain ⟨hp, hplan⟩ := List.mem_filter.mp hp
    have hplan : p.planId = planId := of_decide_eq_true hplan
    rw [List.length_map, ← hplan]
    exact h.bounds p hp

/-- A phase is added at the end of its plan. -/
theorem add (h : Placed planIds places) (hplan : planId ∈ planIds)
    (hfresh : ∀ p ∈ places, p.id ≠ phaseId) :
    Placed planIds (places ++ [⟨phaseId, planId, (placesOf places planId).length + 1⟩]) := by
  have hlength : ∀ id, (placesOf places id).length ≤ (placesOf
      (places ++ [⟨phaseId, planId, (placesOf places planId).length + 1⟩]) id).length := by
    intro id
    unfold placesOf
    rw [List.filter_append, List.length_append]
    omega
  constructor
  · refine List.pairwise_append.mpr ⟨h.ids, List.pairwise_singleton _ _, fun p hp q hq => ?_⟩
    rw [List.mem_singleton.mp hq]
    exact hfresh p hp
  · intro p hp
    rcases List.mem_append.mp hp with hp | hp
    · exact h.owned p hp
    · rw [List.mem_singleton.mp hp]
      exact hplan
  · refine List.pairwise_append.mpr ⟨h.distinct, List.pairwise_singleton _ _, fun p hp q hq => ?_⟩
    rw [List.mem_singleton.mp hq]
    intro hsame heq
    obtain ⟨_, hle⟩ := h.bounds p hp
    rw [show p.planId = planId from hsame] at hle
    simp only at heq
    omega
  · intro p hp
    rcases List.mem_append.mp hp with hp | hp
    · obtain ⟨h1, h2⟩ := h.bounds p hp
      have := hlength p.planId
      omega
    · rw [List.mem_singleton.mp hp]
      simp [placesOf]

/-- The place of a phase after one of its plan has moved. -/
def moved (planId : Uuid) (old new : Int) (p : Place) : Place :=
  if p.planId = planId then { p with position := shifted old new p.position } else p

@[simp] theorem moved_id (planId : Uuid) (old new : Int) (p : Place) :
    (moved planId old new p).id = p.id := by
  unfold moved
  split <;> rfl

@[simp] theorem moved_planId (planId : Uuid) (old new : Int) (p : Place) :
    (moved planId old new p).planId = p.planId := by
  unfold moved
  split <;> rfl

theorem placesOf_map_moved (places : List Place) (planId id : Uuid) (old new : Int) :
    placesOf (places.map (moved planId old new)) id =
      (placesOf places id).map (moved planId old new) := by
  unfold placesOf
  rw [List.filter_map]
  congr 1
  apply List.filter_congr
  intro p _
  simp

/-- **Moving a phase keeps the numbering.** -/
theorem move (h : Placed planIds places) {old new : Int}
    (hold : 1 ≤ old ∧ old ≤ (placesOf places planId).length)
    (hnew : 1 ≤ new ∧ new ≤ (placesOf places planId).length) :
    Placed planIds (places.map (moved planId old new)) := by
  constructor
  · refine List.pairwise_map.mpr (h.ids.imp fun hne => ?_)
    simpa using hne
  · intro p' hp'
    obtain ⟨p, hp, rfl⟩ := List.mem_map.mp hp'
    rw [moved_planId]
    exact h.owned p hp
  · refine List.pairwise_map.mpr (h.distinct.imp fun {p q} hne hsame => ?_)
    rw [moved_planId, moved_planId] at hsame
    unfold moved
    by_cases hplan : p.planId = planId
    · rw [if_pos hplan, if_pos (hsame ▸ hplan)]
      exact fun heq => hne hsame (shifted_injective heq)
    · rw [if_neg hplan, if_neg (hsame ▸ hplan)]
      exact hne hsame
  · intro p' hp'
    obtain ⟨p, hp, rfl⟩ := List.mem_map.mp hp'
    rw [moved_planId, placesOf_map_moved, List.length_map]
    have hbounds := h.bounds p hp
    unfold moved
    by_cases hplan : p.planId = planId
    · rw [if_pos hplan]
      rw [hplan] at hbounds ⊢
      exact shifted_bounds hold hnew hbounds
    · rw [if_neg hplan]
      exact hbounds

end Placed

/-! ## Writers that leave the places -/

variable {db db' : Db} {now : Timestamp} {actor : PlanActor} {ptys : Uuid → Option PtySession}
  {note : Option String} {newId : Nat → Uuid}

theorem planIds_eq (db : Db) : db.planIds = db.tree.map (·.id) := by
  unfold Db.planIds Db.tree
  rw [List.map_map]
  rfl

theorem planIds_of_tree (htree : db'.tree = db.tree) : db'.planIds = db.planIds := by
  rw [planIds_eq, planIds_eq, htree]

/-- Every phase keeps its place, and the plans are the same. -/
structure SamePlaces (db db' : Db) : Prop where
  places : db'.places = db.places
  planIds : db'.planIds = db.planIds

namespace SamePlaces

theorem refl (db : Db) : SamePlaces db db := ⟨rfl, rfl⟩

theorem trans {db'' : Db} (h : SamePlaces db db') (h' : SamePlaces db' db'') : SamePlaces db db'' :=
  ⟨h'.places.trans h.places, h'.planIds.trans h.planIds⟩

/-- The rows of the phases and the tree of the plans are as before. -/
theorem of_rows (hphases : db'.phases = db.phases) (htree : db'.tree = db.tree) :
    SamePlaces db db' :=
  ⟨congrArg (List.map PhaseRow.place) hphases, planIds_of_tree htree⟩

theorem updatePhases (h : SamePlaces db db') {c : PhaseRow → Bool} {f : PhaseRow → PhaseRow}
    (hf : ∀ p, (f p).place = p.place) : SamePlaces db (db'.updatePhases c f) := by
  refine ⟨?_, h.planIds⟩
  rw [← h.places]
  unfold Db.places Db.updatePhases
  rw [List.map_map]
  refine List.map_congr_left fun p _ => ?_
  rw [Function.comp_apply]
  split
  · exact hf p
  · rfl

theorem updatePlan (h : SamePlaces db db') {set : PlanRow → PlanRow}
    (hset : ∀ p, (set p).id = p.id) : SamePlaces db (db'.updatePlan planId set) := by
  refine ⟨h.places, ?_⟩
  rw [← h.planIds]
  unfold Db.planIds Db.updatePlan
  rw [List.map_map]
  refine List.map_congr_left fun p _ => ?_
  rw [Function.comp_apply]
  split
  · exact hset p
  · rfl

theorem bumpRevision (h : SamePlaces db db') :
    SamePlaces db (Plans.bumpRevision db' now planId) := by
  unfold Plans.bumpRevision
  exact h.updatePlan fun _ => rfl

theorem foldl {α : Type} (turn : Db → α → Db) (l : List α) (h : SamePlaces db db')
    (hturn : ∀ db a, SamePlaces db (turn db a)) : SamePlaces db (l.foldl turn db') := by
  induction l generalizing db' with
  | nil => exact h
  | cons a l ih => exact ih (h.trans (hturn db' a))

theorem attachInTx {ptyId : Uuid} {bump : Bool} :
    Yields (attachInTx ptys db now planId ptyId actor bump) (SamePlaces db) := by
  intro db' hdb'
  exact of_rows (phases_attachInTx db' hdb') (tree_attachInTx db' hdb')

theorem openBranchUnder {parentPlanId anchor : Uuid} {text : String} :
    SamePlaces db (openBranchUnder now parentPlanId planId text actor db anchor) := by
  have hanchored : SamePlaces db { db with anchors := db.anchors ++ [⟨planId, anchor, now⟩] } :=
    ⟨rfl, rfl⟩
  have hopened := hanchored.updatePhases
    (c := fun p => decide (p.id = anchor ∧ p.status = .pending))
    (f := fun p => { p with
      status := .inProgress
      startedAt := some (p.startedAt.getD now)
      updatedAt := now }) fun _ => rfl
  exact ⟨hopened.places, hopened.planIds⟩

theorem skipPhase {phase : PhaseRow} :
    SamePlaces db (skipPhase now planId actor note db phase) := by
  have hskipped := (refl db).updatePhases
    (c := fun p => decide (p.planId = planId ∧ p.id = phase.id))
    (f := fun p => { p with
      status := .skipped
      statusNote := note.or p.statusNote
      completedAt := some now
      updatedAt := now }) fun _ => rfl
  exact ⟨hskipped.places, hskipped.planIds⟩

theorem skipRemainingPhases : SamePlaces db (skipRemainingPhases db now planId actor note) :=
  (refl db).foldl _ _ fun _ _ => skipPhase

theorem releaseAnchors {parentId : Uuid} :
    SamePlaces db (releaseAnchors db now planId parentId actor note) := by
  have hreleased := (refl db).updatePhases (c := db.isBlockedAnchor planId)
    (f := fun p => { p with status := .inProgress, updatedAt := now }) fun _ => rfl
  exact hreleased.foldl _ _ fun _ _ => ⟨rfl, rfl⟩

theorem closeBranchIntoParent {parent : Option Uuid} {status : PlanStatus} :
    Yields (closeBranchIntoParent ptys db now planId parent status actor note) (SamePlaces db) := by
  intro db' hdb'
  refine ⟨?_, planIds_of_tree (tree_closeBranchIntoParent db' hdb')⟩
  rcases phases_closeBranchIntoParent db' hdb' with hsame | ⟨parentId, hreleased⟩
  · exact congrArg (List.map PhaseRow.place) hsame
  · exact (congrArg (List.map PhaseRow.place) hreleased).trans releaseAnchors.places

theorem update {input : UpdatePlanInput} :
    Yields (update ptys db now planId input actor) (SamePlaces db) := by
  unfold Plans.update
  refine .skip fun _ => .skip fun current => .skip fun title => .skip fun summary => ?_
  refine .skip fun guidance => .skip fun status => .skip fun note => ?_
  refine .require fun _ => .require fun _ => .require fun _ => ?_
  have hskipped : SamePlaces db (if !status.isOpen && input.skipRemaining then
      Plans.skipRemainingPhases db now planId actor note else db) := by
    split
    · exact skipRemainingPhases
    · exact refl db
  have hlogged : ∀ eventType (set : PlanRow → PlanRow), (∀ p, (set p).id = p.id) →
      SamePlaces db (insertEvent (recordChange ((if !status.isOpen && input.skipRemaining then
        Plans.skipRemainingPhases db now planId actor note else db).updatePlan planId set) now
          planId actor (some current.guidance) guidance note) now planId none eventType actor
        (some current.status.text) (some status.text) note) := by
    intro eventType set hset
    exact (hskipped.updatePlan hset).trans
      (of_rows phases_recordChange ((tree_insertEvent ..).trans (tree_recordChange ..)))
  refine .ite (fun _ => .ok ?_) fun _ => closeBranchIntoParent.mono fun db' hdb' => ?_
  · exact hlogged _ _ fun _ => rfl
  · refine (hlogged _ _ ?_).trans hdb'
    exact fun _ => rfl

theorem attach {ptyId : Uuid} : Yields (attach ptys db now planId ptyId actor) (SamePlaces db) := by
  unfold Plans.attach
  exact .skip fun _ => .skip fun _ => attachInTx

theorem detach {ptyId : Uuid} : Yields (detach db now planId ptyId actor) (SamePlaces db) := by
  unfold Plans.detach
  refine .skip fun _ => .ite (fun _ => .ok ?_) fun _ => .ok (refl db)
  exact of_rows rfl (by rw [tree_insertEvent, tree_bumpRevision, tree_detachAll])

end SamePlaces

/-! ## Writers that add phases -/

/-- The phases of every plan are numbered. -/
def Db.Numbered (db : Db) : Prop := Placed db.planIds db.places

/-- Phases are added behind the others, all to one plan. -/
def AddedTo (planId : Uuid) (before after : List Place) : Prop :=
  ∃ added, after = before ++ added ∧ ∀ p ∈ added, p.planId = planId

theorem AddedTo.none (planId : Uuid) (places : List Place) : AddedTo planId places places :=
  ⟨[], (List.append_nil places).symm, by simp⟩

theorem AddedTo.trans {places₁ places₂ places₃ : List Place} (h : AddedTo planId places₁ places₂)
    (h' : AddedTo planId places₂ places₃) : AddedTo planId places₁ places₃ := by
  obtain ⟨added, rfl, hadded⟩ := h
  obtain ⟨added', rfl, hadded'⟩ := h'
  refine ⟨added ++ added', List.append_assoc .., fun p hp => ?_⟩
  rcases List.mem_append.mp hp with hp | hp
  · exact hadded p hp
  · exact hadded' p hp

theorem SamePlaces.numbered (h : SamePlaces db db') (hdb : db.Numbered) : db'.Numbered := by
  unfold Db.Numbered
  rw [h.places, h.planIds]
  exact hdb

theorem planIds_insertPlan {repoName title summary : String} {guidance : PlanGuidance}
    {parent : Option Uuid} {rootPlanId : Uuid} {depth : Nat} :
    Yields (insertPlan db now planId repoName title summary guidance parent rootPlanId depth actor)
      fun db' => planId ∉ db.planIds ∧ db'.planIds = db.planIds ++ [planId] ∧
        db'.places = db.places := by
  intro db' hdb'
  refine ⟨?_, ?_, congrArg (List.map PhaseRow.place) (phases_insertPlan db' hdb')⟩
  · rintro hmem
    obtain ⟨p, hp, hid⟩ := List.mem_map.mp hmem
    exact (tree_insertPlan db' hdb').1 p.node (List.mem_map_of_mem hp) hid
  · rw [planIds_eq, planIds_eq, (tree_insertPlan db' hdb').2, List.map_append]
    rfl

theorem places_insertPhase {position : Int} {phase : CheckedPhase}
    {completedAt : Option Timestamp} :
    Yields (insertPhase db now planId phaseId position phase actor completedAt) fun db' =>
      (∀ p ∈ db.places, p.id ≠ phaseId) ∧ db'.planIds = db.planIds ∧
        db'.places = db.places ++ [⟨phaseId, planId, position⟩] := by
  unfold insertPhase
  refine .require fun hfree => .ok ⟨?_, rfl, List.map_append⟩
  intro p hp
  obtain ⟨row, hrow, rfl⟩ := List.mem_map.mp hp
  exact of_decide_eq_true (List.all_eq_true.mp hfree row hrow)

namespace Db.Numbered

/-- The place of a phase that is inserted is the next one of its plan. -/
theorem insertPhase (h : db.Numbered) (hplan : planId ∈ db.planIds) {position : Int}
    (hposition : position = (placesOf db.places planId).length + 1) {phase : CheckedPhase}
    {completedAt : Option Timestamp} :
    Yields (insertPhase db now planId phaseId position phase actor completedAt) fun db' =>
      db'.Numbered ∧ db'.planIds = db.planIds ∧
        db'.places = db.places ++ [⟨phaseId, planId, (placesOf db.places planId).length + 1⟩] := by
  rw [hposition]
  refine places_insertPhase.mono ?_
  rintro db' ⟨hfresh, hids, hplaces⟩
  refine ⟨?_, hids, hplaces⟩
  unfold Db.Numbered
  rw [hids, hplaces]
  exact Placed.add h hplan hfresh

/-- The phases of a new plan are numbered in their order. -/
theorem foldlM_insertPhase {phases : List CheckedPhase} {count : Nat} (h : db.Numbered)
    (hplan : planId ∈ db.planIds) (hcount : (placesOf db.places planId).length = count) :
    Yields ((phases.zipIdx count).foldlM (fun db (phase, index) =>
        Plans.insertPhase db now planId (newId index) (index + 1) phase actor none) db) fun db' =>
      db'.Numbered ∧ AddedTo planId db.places db'.places := by
  induction phases generalizing db count with
  | nil => exact .pure ⟨h, .none planId db.places⟩
  | cons phase phases ih =>
      rw [List.zipIdx_cons, List.foldlM_cons]
      refine .bind (h.insertPhase hplan (by rw [hcount])) ?_
      rintro db₁ ⟨h₁, hids, hplaces⟩
      have hadded : AddedTo planId db.places db₁.places := ⟨_, hplaces, by simp⟩
      have hcount₁ : (placesOf db₁.places planId).length = count + 1 := by
        rw [hplaces, ← hcount]
        simp [placesOf]
      refine (ih h₁ (hids ▸ hplan) hcount₁).mono ?_
      rintro db' ⟨hdb', hadded'⟩
      exact ⟨hdb', hadded.trans hadded'⟩

/-- A plan gets its row and its phases. -/
theorem insertPlan (h : db.Numbered) {repoName title summary : String} {guidance : PlanGuidance}
    {parent : Option Uuid} {rootPlanId : Uuid} {depth : Nat} {phases : List CheckedPhase} :
    Yields (do
      let db ← insertPlan db now planId repoName title summary guidance parent rootPlanId depth
        actor
      insertPhases db now newId planId phases actor) fun db' =>
        db'.Numbered ∧ AddedTo planId db.places db'.places := by
  refine .bind planIds_insertPlan ?_
  rintro db₁ ⟨hnew, hids, hplaces⟩
  have h₁ : db₁.Numbered := by
    unfold Db.Numbered
    rw [hids, hplaces]
    exact Placed.mono h (List.subset_append_left ..)
  have hnone : (placesOf db₁.places planId).length = 0 := by
    rw [hplaces, List.length_eq_zero_iff]
    refine List.filter_eq_nil_iff.mpr fun p hp => ?_
    intro hplan
    exact hnew (of_decide_eq_true hplan ▸ h.owned p hp)
  rw [← hplaces]
  exact h₁.foldlM_insertPhase (hids ▸ List.mem_append_right _ (List.mem_singleton_self _)) hnone

theorem create (h : db.Numbered) {input : CreatePlanInput} :
    Yields (create ptys db now newId input actor) fun db' =>
      db'.Numbered ∧ AddedTo (newId 0) db.places db'.places := by
  unfold Plans.create
  refine .skip fun _ => .skip fun _ => .skip fun _ => .skip fun _ => .skip fun _ => ?_
  refine .skip fun phases => ?_
  rw [← bind_assoc]
  refine .bind h.insertPlan ?_
  rintro db₂ ⟨h₂, hadded⟩
  split
  · refine SamePlaces.attachInTx.mono fun db₃ h₃ => ⟨h₃.numbered h₂, ?_⟩
    rw [h₃.places]
    exact hadded
  · exact .ok ⟨h₂, hadded⟩

theorem branch (h : db.Numbered) {parseUuid : String → Option Uuid} {parentPlanId : Uuid}
    {input : BranchPlanInput} :
    Yields (branch parseUuid ptys db now newId parentPlanId input actor) fun db' =>
      db'.Numbered ∧ AddedTo (newId 0) db.places db'.places := by
  unfold Plans.branch
  refine .skip fun _ => .skip fun _ => .skip fun _ => .skip fun _ => .skip fun _ => ?_
  refine .skip fun phases => .skip fun _ => .require fun _ => .skip fun anchors => ?_
  rw [← bind_assoc]
  refine .bind h.insertPlan ?_
  rintro db₂ ⟨h₂, hadded⟩
  have hopened : ∀ text, SamePlaces db₂ (Plans.bumpRevision (anchors.foldl
      (Plans.openBranchUnder now parentPlanId (newId 0) text actor) db₂) now parentPlanId) := by
    intro text
    refine SamePlaces.bumpRevision ?_
    exact (SamePlaces.refl db₂).foldl _ anchors fun _ _ => SamePlaces.openBranchUnder
  split
  · refine SamePlaces.attachInTx.mono fun db₃ h₃ => ?_
    have hsame := (hopened _).trans h₃
    exact ⟨hsame.numbered h₂, hsame.places ▸ hadded⟩
  · exact .ok ⟨(hopened _).numbered h₂, (hopened _).places ▸ hadded⟩

end Db.Numbered

/-! ## Phases that are added and moved one at a time -/

/-- The places of a plan are those of its rows. -/
theorem placesOf_eq (db : Db) (planId : Uuid) :
    placesOf db.places planId =
      (db.phases.filter fun p => decide (p.planId = planId)).map PhaseRow.place := by
  unfold placesOf Db.places
  rw [List.filter_map]
  rfl

theorem mem_planIds {p : PlanRow} (hp : p ∈ db.plans) : p.id ∈ db.planIds := List.mem_map_of_mem hp

/-- The requested position, at most that of the last phase of the plan. -/
def clamped (places : List Place) (planId : Uuid) (requested : Int) : Int :=
  min (max requested 1) (placesOf places planId).length

/-- A phase is moved: it comes to the requested position, the other phases of its plan keep their
order, and those of other plans their positions. -/
structure MovedTo (planId phaseId : Uuid) (requested : Int) (position : Place → Int)
    (before : List Place) : Prop where
  elsewhere : ∀ p ∈ before, p.planId ≠ planId → position p = p.position
  requested : ∃ p ∈ before, p.planId = planId ∧ p.id = phaseId ∧
    position p = clamped before planId requested
  others : ∀ p ∈ before, ∀ q ∈ before, p.planId = planId → q.planId = planId →
    p.id ≠ phaseId → q.id ≠ phaseId → (position p < position q ↔ p.position < q.position)

namespace Placed

/-- A phase is known by its id. -/
theorem eq_of_id (h : Placed planIds places) {p q : Place} (hp : p ∈ places) (hq : q ∈ places)
    (hid : p.id = q.id) : p = q :=
  List.inj_on_of_nodup_map (List.pairwise_map.mpr h.ids) hp hq hid

theorem position_ne (h : Placed planIds places) {p q : Place} (hp : p ∈ places) (hq : q ∈ places)
    (hplan : p.planId = q.planId) (hid : p.id ≠ q.id) : p.position ≠ q.position := by
  have : Std.Symm fun p q : Place => p.planId = q.planId → p.position ≠ q.position :=
    ⟨fun p q hne hsame heq => hne hsame.symm heq.symm⟩
  exact h.distinct.forall hp hq (fun heq => hid (congrArg Place.id heq)) hplan

/-- A phase of the plan can come to any requested position after it is clamped. -/
theorem clamped_bounds (h : Placed planIds places) {p : Place} (hp : p ∈ places) (requested : Int) :
    1 ≤ clamped places p.planId requested ∧
      clamped places p.planId requested ≤ (placesOf places p.planId).length := by
  obtain ⟨h1, h2⟩ := h.bounds p hp
  unfold clamped
  omega

theorem moved_eq (planId : Uuid) (old new : Int) (p : Place) :
    moved planId old new p = { p with position := (moved planId old new p).position } := by
  unfold moved
  split <;> rfl

theorem movedTo (h : Placed planIds places) {p : Place} (hp : p ∈ places) (requested : Int) :
    MovedTo p.planId p.id requested (fun q => (moved p.planId p.position
      (clamped places p.planId requested) q).position) places := by
  have hat : ∀ q ∈ places, q.planId = p.planId → q.id ≠ p.id → q.position ≠ p.position :=
    fun q hq hplan hid => h.position_ne hq hp hplan hid
  constructor
  · intro q _ hplan
    unfold moved
    rw [if_neg hplan]
  · refine ⟨p, hp, rfl, rfl, ?_⟩
    unfold moved
    rw [if_pos rfl]
    exact shifted_old
  · intro q hq r hr hqPlan hrPlan hqId hrId
    unfold moved
    rw [if_pos hqPlan, if_pos hrPlan]
    exact shifted_lt_iff (hat q hq hqPlan hqId) (hat r hr hrPlan hrId)

end Placed

theorem Db.Numbered.addPhase (h : db.Numbered) {phase : NewPhase} :
    Yields (addPhase db now newId planId phase actor) fun db' =>
      db'.Numbered ∧
        db'.places = db.places ++ [⟨newId 0, planId, (placesOf db.places planId).length + 1⟩] := by
  unfold Plans.addPhase
  refine .skip fun _ => .skip fun _ => .skip fun _ => .skip fun status => .skip fun size => ?_
  refine .bind yields_ensurePlanOpen fun plan ⟨⟨hplan, hid⟩, _⟩ => ?_
  have hnext : ((db.phases.filter fun p => decide (p.planId = planId)).map (·.position)).max?.getD 0
      = (placesOf db.places planId).length := by
    rw [show (db.phases.filter fun p => decide (p.planId = planId)).map (·.position) =
        (placesOf db.places planId).map (·.position) by
      rw [placesOf_eq, List.map_map]
      rfl]
    exact max?_placesUpTo (Placed.perm h planId)
  refine .bind (h.insertPhase (hid ▸ mem_planIds hplan) (congrArg (· + 1) hnext)) ?_
  rintro db' ⟨hdb', -, hplaces⟩
  have hbumped : SamePlaces db' (bumpRevision db' now planId) := (SamePlaces.refl db').bumpRevision
  exact .ok ⟨hbumped.numbered hdb', hbumped.places.trans hplaces⟩

/-- An update that sets positions. -/
theorem places_updatePhases {c : Place → Prop} [DecidablePred c] {f : Place → Place}
    {set : PhaseRow → PhaseRow} (hset : ∀ p, (set p).place = f p.place) :
    (db.updatePhases (fun p => decide (c p.place)) set).places =
      db.places.map fun p => if c p then f p else p := by
  unfold Db.places Db.updatePhases
  rw [List.map_map, List.map_map]
  refine List.map_congr_left fun p _ => ?_
  rw [Function.comp_apply, Function.comp_apply]
  by_cases hc : c p.place
  · rw [if_pos hc, if_pos (decide_eq_true hc)]
    exact hset p
  · rw [if_neg hc, if_neg (by rw [decide_eq_true_eq]; exact hc)]

/-- The phases between the two places make room, and then the phase is put in its place. -/
theorem Placed.moved_of_shift (h : Placed planIds places) {old new : Int}
    (hp : ⟨phaseId, planId, old⟩ ∈ places) {shift : Place → Place}
    (hshift : ∀ p, p.planId = planId → p.position ≠ old → p.id ≠ phaseId →
      shift p = { p with position := shifted old new p.position })
    (helse : ∀ p, p.planId ≠ planId ∨ p.id = phaseId → shift p = p) :
    (places.map shift).map (fun p => if p.planId = planId ∧ p.id = phaseId then
      { p with position := new } else p) = places.map (moved planId old new) := by
  rw [List.map_map]
  refine List.map_congr_left fun p hmem => ?_
  rw [Function.comp_apply]
  unfold moved
  by_cases hid : p.id = phaseId
  · obtain rfl := h.eq_of_id hmem hp hid
    rw [helse _ (.inr rfl), if_pos ⟨rfl, rfl⟩, if_pos rfl]
    exact congrArg (Place.mk _ _) shifted_old.symm
  · by_cases hplan : p.planId = planId
    · have hposition : p.position ≠ old := h.position_ne hmem hp hplan hid
      rw [hshift p hplan hposition hid, if_pos hplan, if_neg fun hsame => hid hsame.2]
    · rw [helse p (.inl hplan), if_neg hplan, if_neg fun hsame => hplan hsame.1]

theorem places_movePhase (h : db.Numbered) {current : PhaseRow} (hcurrent : current ∈ db.phases)
    (requested : Int) :
    (movePhase db now current.planId current.id current.position requested).places =
      db.places.map (Placed.moved current.planId current.position
        (clamped db.places current.planId requested)) := by
  have hplace : current.place ∈ db.places := List.mem_map_of_mem hcurrent
  have hnew : min (max requested 1)
      ((db.phases.filter fun p => decide (p.planId = current.planId)).length : Int) =
        clamped db.places current.planId requested := by
    unfold clamped
    rw [placesOf_eq, List.length_map]
  unfold movePhase
  dsimp only
  rw [hnew]
  generalize clamped db.places current.planId requested = new
  have hput : ∀ db : Db, (db.updatePhases
      (fun p => decide (p.planId = current.planId ∧ p.id = current.id))
      fun p => { p with position := new }).places = db.places.map fun p =>
        if p.planId = current.planId ∧ p.id = current.id then { p with position := new } else p :=
    fun db => places_updatePhases (c := fun p => p.planId = current.planId ∧ p.id = current.id)
      fun p => rfl
  split_ifs with hsame hdown
  · rw [hsame]
    refine ((List.map_congr_left fun p _ => ?_).trans (List.map_id _)).symm
    unfold Placed.moved
    split
    · rw [shifted_self]
      rfl
    · rfl
  · refine (hput _).trans ((congrArg (List.map _) (places_updatePhases
      (c := fun p => p.planId = current.planId ∧ new ≤ p.position ∧
        p.position < current.position ∧ p.id ≠ current.id)
      (f := fun p => { p with position := p.position + 1 }) fun p => rfl)).trans ?_)
    refine Placed.moved_of_shift h hplace (fun p hplan hposition hid => ?_) fun p helse => ?_
    · unfold shifted
      split_ifs <;> grind
    · refine if_neg ?_
      rintro ⟨hplan, -, -, hid⟩
      exact helse.elim (fun hne => hne hplan) hid
  · refine (hput _).trans ((congrArg (List.map _) (places_updatePhases
      (c := fun p => p.planId = current.planId ∧ current.position < p.position ∧
        p.position ≤ new ∧ p.id ≠ current.id)
      (f := fun p => { p with position := p.position - 1 }) fun p => rfl)).trans ?_)
    refine Placed.moved_of_shift h hplace (fun p hplan hposition hid => ?_) fun p helse => ?_
    · unfold shifted
      split_ifs <;> grind
    · refine if_neg ?_
      rintro ⟨hplan, -, -, hid⟩
      exact helse.elim (fun hne => hne hplan) hid

/-- What `update_phase` does to the places. -/
theorem Db.Numbered.updatePhase (h : db.Numbered) {input : UpdatePhaseInput} :
    Yields (updatePhase db now planId phaseId input actor) fun db' =>
      db'.Numbered ∧ (input.position = none → db'.places = db.places) ∧
        ∀ requested, input.position = some requested → ∃ position,
          MovedTo planId phaseId requested position db.places ∧
            db'.places = db.places.map fun p => { p with position := position p } := by
  have hcurrent : Yields ((db.phases.find? fun p =>
      decide (p.id = phaseId ∧ p.planId = planId)).elim
      (.error ("phase not found: " ++ uuidText phaseId)) .ok) fun current =>
        current ∈ db.phases ∧ current.id = phaseId ∧ current.planId = planId := by
    intro current hfound
    cases hphase : db.phases.find? fun p => decide (p.id = phaseId ∧ p.planId = planId) with
    | none =>
        rw [hphase] at hfound
        cases hfound
    | some p =>
        rw [hphase] at hfound
        obtain rfl := Except.ok.inj hfound
        exact ⟨List.mem_of_find?_eq_some hphase, of_decide_eq_true (List.find?_some hphase :)⟩
  unfold Plans.updatePhase
  refine .skip fun _ => .skip fun _ => .bind hcurrent ?_
  rintro current ⟨hmem, rfl, rfl⟩
  refine .skip fun title => .skip fun description => .skip fun status => .skip fun statusNote => ?_
  refine .skip fun size => .ok ?_
  have hset : ∀ moved : Db, SamePlaces moved (insertEvent (bumpRevision (moved.updatePhases
      (fun p => decide (p.id = current.id ∧ p.planId = current.planId)) fun p =>
        { p.setStatus status now with
          title := title
          description := description
          statusNote := statusNote
          size := size }) now current.planId) now current.planId (some current.id)
      (if status = current.status then .phaseUpdated else .phaseStatusChanged) actor
      (some current.status.text) (some status.text) statusNote) := by
    intro moved
    have hrow := (SamePlaces.refl moved).updatePhases
      (c := fun p => decide (p.id = current.id ∧ p.planId = current.planId))
      (f := fun p =>
        { p.setStatus status now with
          title := title
          description := description
          statusNote := statusNote
          size := size }) fun _ => rfl
    exact hrow.bumpRevision.trans ⟨rfl, rfl⟩
  cases hposition : input.position with
  | none =>
      refine ⟨(hset db).numbered h, fun _ => (hset db).places, ?_⟩
      intro requested hrequested
      cases hrequested
  | some requested =>
      have hplace : current.place ∈ db.places := List.mem_map_of_mem hmem
      have hmoved :
          (movePhase db now current.planId current.id current.position requested).places = _ :=
        places_movePhase h hmem requested
      refine ⟨(hset _).numbered ?_, ?_, ?_⟩
      · unfold Db.Numbered
        rw [Option.elim_some, hmoved, planIds_of_tree tree_movePhase]
        exact Placed.move h (Placed.bounds h _ hplace) (Placed.clamped_bounds h hplace requested)
      · intro hnone
        cases hnone
      · rintro _ ⟨⟩
        refine ⟨_, Placed.movedTo h hplace requested, ?_⟩
        rw [(hset _).places, Option.elim_some, hmoved]
        exact List.map_congr_left fun p _ => Placed.moved_eq ..

/-! ## Every run -/

/-- What an operation does to the places: a phase is added at the end of its plan or moved to the
requested position; every other phase keeps its place. -/
def Operation.Repositions (newId : Nat → Uuid) (before after : List Place) : Operation → Prop
  | .create _ => AddedTo (newId 0) before after
  | .branch _ _ => AddedTo (newId 0) before after
  | .addPhase planId _ =>
      after = before ++ [⟨newId 0, planId, (placesOf before planId).length + 1⟩]
  | .updatePhase planId phaseId input =>
      (input.position = none → after = before) ∧
        ∀ requested, input.position = some requested → ∃ position,
          MovedTo planId phaseId requested position before ∧
            after = before.map fun p => { p with position := position p }
  | .update .. | .attach .. | .detach .. => after = before

theorem Db.Numbered.run (h : db.Numbered) (parseUuid : String → Option Uuid) (call : Call) :
    Yields (call.run parseUuid db) fun db' =>
      db'.Numbered ∧ call.operation.Repositions call.newId db.places db'.places := by
  have hsame : ∀ db', SamePlaces db db' → db'.Numbered ∧ db'.places = db.places :=
    fun db' hdb' => ⟨hdb'.numbered h, hdb'.places⟩
  unfold Call.run
  split <;> rename_i hoperation <;> rw [hoperation]
  · exact h.create
  · exact h.branch
  · exact SamePlaces.update.mono hsame
  · exact h.addPhase
  · exact h.updatePhase
  · exact SamePlaces.attach.mono hsame
  · exact SamePlaces.detach.mono hsame

theorem numbered_preserved (parseUuid : String → Option Uuid) :
    Preserved (planStep parseUuid) anyStep fun s => s.db.Numbered := by
  intro s call s' h _ hstep
  unfold planStep at hstep
  split at hstep
  · split at hstep
    · rename_i db hrun
      cases hstep
      exact (h.run parseUuid call db hrun).1
    · cases hstep
      exact h
  · cases hstep

/-- **The phases of a plan are numbered `1..n`** in every state of a run. A call adds a phase as
the last one of its plan, or moves it to the requested position within `1..n`; the other phases
keep their order, and in every other call their positions. -/
theorem phase_positions (parseUuid : String → Option Uuid) (clock : Timestamp) (s : Store)
    (hrun : Run (planStep parseUuid) anyStep (.new clock) s) :
    (∀ planId, ((placesOf s.db.places planId).map (·.position)).Perm
      (placesUpTo (placesOf s.db.places planId).length)) ∧
    ∀ (call : Call) (db : Db), call.run parseUuid s.db = .ok db →
      call.operation.Repositions call.newId s.db.places db.places := by
  have hnumbered : s.db.Numbered := by
    refine Run.invariant (I := fun s => s.db.Numbered) (numbered_preserved parseUuid) hrun ?_
    exact Placed.empty
  exact ⟨fun planId => hnumbered.perm planId, fun call db hdb =>
    (hnumbered.run parseUuid call db hdb).2⟩

/-- A plan of three phases whose last phase is moved to the front. -/
def reordered : List Call :=
  [sampleCall 0 1 (.create
    { repoName := "r", title := "plan",
      phases := [{ title := "one" }, { title := "two" }, { title := "three" }] }),
    sampleCall 1 0 (.updatePhase 1 4 { position := some 0 })]

theorem phase_positions_reordered :
    ∃ s ∈ runList (planStep fun _ => none) (.new 0) reordered,
      s.db.places = [⟨2, 1, 2⟩, ⟨3, 1, 3⟩, ⟨4, 1, 1⟩] ∧
        ((placesOf s.db.places 1).map (·.position)).Perm (placesUpTo 3) := by
  have hplaces : ∃ s ∈ runList (planStep fun _ => none) (.new 0) reordered,
      s.db.places = [⟨2, 1, 2⟩, ⟨3, 1, 3⟩, ⟨4, 1, 1⟩] := by decide +kernel
  obtain ⟨s, hs, hplaces⟩ := hplaces
  have hperm := (phase_positions _ 0 s (.of_runList _ hs)).1 1
  rw [hplaces] at hperm
  exact ⟨s, hs, hplaces, by rw [hplaces]; exact hperm⟩

end Sulion.Plans
