import Sulion.Plans.Tree

set_option autoImplicit false

/-! # Edits that keep the status

An update of a plan that leaves its status is to change no other plan. `OthersKept` is that frame.
The statements of `update` keep it but for the closing of a branch into its parent, which runs
whenever the plan is closed, and not only when this update closes it.
-/

namespace Sulion.Plans

open Transition

/-- The rows of the other plans, their phases, attachments and events are as before. -/
structure OthersKept (planId : Uuid) (db db' : Db) : Prop where
  plans : (db'.plans.filter fun p => decide (p.id ≠ planId)) =
    db.plans.filter fun p => decide (p.id ≠ planId)
  phases : (db'.phases.filter fun p => decide (p.planId ≠ planId)) =
    db.phases.filter fun p => decide (p.planId ≠ planId)
  attachments : (db'.attachments.filter fun a => decide (a.planId ≠ planId)) =
    db.attachments.filter fun a => decide (a.planId ≠ planId)
  events : (db'.events.filter fun e => decide (e.planId ≠ planId)) =
    db.events.filter fun e => decide (e.planId ≠ planId)

/-- An update of rows of one key leaves those of the others. -/
theorem filter_map_ite {α κ : Type} [DecidableEq κ] {key : α → κ} {k : κ} {c : α → Prop}
    [DecidablePred c] {f : α → α} (hc : ∀ a, c a → key a = k ∧ key (f a) = k) (l : List α) :
    ((l.map fun a => if c a then f a else a).filter fun a => decide (key a ≠ k)) =
      l.filter fun a => decide (key a ≠ k) := by
  induction l with
  | nil => rfl
  | cons a l ih =>
      rw [List.map_cons, List.filter_cons, List.filter_cons, ih]
      by_cases hchosen : c a
      · obtain ⟨hkey, hkey'⟩ := hc a hchosen
        rw [if_pos hchosen, if_neg (by simp [hkey']), if_neg (by simp [hkey])]
      · rw [if_neg hchosen]

variable {db db' : Db} {now : Timestamp} {planId : Uuid} {actor : PlanActor}
  {ptys : Uuid → Option PtySession} {note : Option String}

namespace OthersKept

theorem refl (planId : Uuid) (db : Db) : OthersKept planId db db := ⟨rfl, rfl, rfl, rfl⟩

theorem trans {db'' : Db} (h : OthersKept planId db db') (h' : OthersKept planId db' db'') :
    OthersKept planId db db'' :=
  ⟨h'.plans.trans h.plans, h'.phases.trans h.phases, h'.attachments.trans h.attachments,
    h'.events.trans h.events⟩

theorem updatePlan {f : PlanRow → PlanRow} (hf : ∀ p, (f p).id = p.id) :
    OthersKept planId db (db.updatePlan planId f) :=
  { refl planId db with
    plans := filter_map_ite (fun p hp => ⟨hp, (hf p).trans hp⟩) db.plans }

theorem updatePhases {c : PhaseRow → Bool} {f : PhaseRow → PhaseRow}
    (hc : ∀ p, c p → p.planId = planId) (hf : ∀ p, (f p).planId = p.planId) :
    OthersKept planId db (db.updatePhases c f) :=
  { refl planId db with
    phases := filter_map_ite (fun p hp => ⟨hc p hp, (hf p).trans (hc p hp)⟩) db.phases }

theorem detachAll : OthersKept planId db (db.detachAll now fun a => decide (a.planId = planId)) :=
  { refl planId db with
    attachments := filter_map_ite
      (fun _ ha => ⟨of_decide_eq_true ha.1, of_decide_eq_true ha.1⟩) db.attachments }

theorem log {event : Nat → PlanEvent} (hevent : ∀ id, (event id).planId = planId) :
    OthersKept planId db (db.log event) := by
  refine { refl planId db with events := ?_ }
  have hnone : ([event db.events.length].filter fun e => decide (e.planId ≠ planId)) = [] := by
    simp [hevent]
  unfold Db.log
  rw [List.filter_append, hnone, List.append_nil]

theorem insertEvent {phaseId : Option Uuid} {eventType : EventType}
    {fromStatus toStatus : Option String} : OthersKept planId db
      (insertEvent db now planId phaseId eventType actor fromStatus toStatus note) :=
  log fun _ => rfl

theorem foldl {α : Type} (turn : Db → α → Db) (l : List α) (h : OthersKept planId db db')
    (hturn : ∀ db a, OthersKept planId db (turn db a)) :
    OthersKept planId db (l.foldl turn db') := by
  induction l generalizing db' with
  | nil => exact h
  | cons a l ih => exact ih (h.trans (hturn db' a))

theorem skipRemainingPhases :
    OthersKept planId db (skipRemainingPhases db now planId actor note) := by
  refine (refl planId db).foldl _ _ fun db phase => ?_
  have hskipped : OthersKept planId db (db.updatePhases
      (fun p => decide (p.planId = planId ∧ p.id = phase.id)) fun p =>
        { p with
          status := .skipped
          statusNote := note.or p.statusNote
          completedAt := some now
          updatedAt := now }) :=
    updatePhases (fun p hp => (of_decide_eq_true hp).1) fun _ => rfl
  exact hskipped.trans insertEvent

theorem recordChange {before : Option PlanGuidance} {after : PlanGuidance} :
    OthersKept planId db (recordChange db now planId actor before after note) := by
  unfold Plans.recordChange
  split
  · exact refl planId db
  · exact log fun _ => rfl

end OthersKept

/-! ## Closing into an open parent -/

theorem events_attachInTx {ptyId : Uuid} {bump : Bool} :
    Yields (attachInTx ptys db now planId ptyId actor bump) fun db' =>
      db.events <+: db'.events := by
  unfold attachInTx
  refine .skip fun plan => .skip fun session => .require fun _ => ?_
  refine .ite (fun _ => .ok (List.prefix_refl _)) fun _ => .ok ?_
  have hleft : db.events <+: (leaveOldPlan db now ptyId actor).events := by
    unfold leaveOldPlan
    split
    · exact List.prefix_refl _
    · exact List.prefix_append ..
  cases bump
  · exact hleft.trans (List.prefix_append ..)
  · exact hleft.trans (List.prefix_append ..)

theorem events_releaseAnchors {parentId : Uuid} :
    db.events <+: (releaseAnchors db now planId parentId actor note).events := by
  have hloop : ∀ (released : List Uuid) (db : Db),
      db.events <+: (released.foldl (releaseAnchor now parentId actor note) db).events := by
    intro released
    induction released with
    | nil => exact fun db => List.prefix_refl _
    | cons phaseId released ih =>
        intro db
        have hturn : db.events <+: (releaseAnchor now parentId actor note db phaseId).events :=
          List.prefix_append ..
        exact hturn.trans (ih _)
  exact hloop _ (db.updatePhases (db.isBlockedAnchor planId) fun p =>
    { p with status := .inProgress, updatedAt := now })

/-- The parent gets an event at the end. -/
theorem events_closeBranchIntoParent {parent : Option Uuid} {parentId : Uuid} {status : PlanStatus}
    (hopen : (parent.filter fun id => (db.plan id).any (·.status.isOpen)) = some parentId) :
    Yields (closeBranchIntoParent ptys db now planId parent status actor note) fun db' =>
      ∃ events e, db'.events = events ++ [e] ∧ e.planId = parentId ∧ db.events <+: events := by
  unfold closeBranchIntoParent
  rw [hopen]
  have hreleased : db.events <+: (if status = .completed then
      releaseAnchors db now planId parentId actor note else db).events := by
    split
    · exact events_releaseAnchors
    · exact List.prefix_refl _
  have hloop : ∀ (ptyIds : List Uuid) (detached : Db), db.events <+: detached.events →
      Yields (ptyIds.foldlM (popPty ptys now parentId actor) detached) fun db' =>
        db.events <+: db'.events := by
    intro ptyIds detached hdetached
    refine .foldlM hdetached fun db₁ ptyId _ h₁ => ?_
    unfold popPty
    exact .ite (fun _ => events_attachInTx.mono fun db₂ h₂ => h₁.trans h₂) fun _ => .ok h₁
  exact .bind (hloop _ _ hreleased) fun db₂ h₂ => .ok ⟨_, _, rfl, rfl, h₂⟩

/-- An event of another plan is a change of it. -/
theorem OthersKept.not_of_event {closing : Db} (hkept : OthersKept planId db closing)
    {events : List PlanEvent} {e : PlanEvent} (hevents : db'.events = events ++ [e])
    (hplan : e.planId ≠ planId) (hbefore : closing.events <+: events) :
    ¬ OthersKept planId db db' := by
  intro hkept'
  have hlength := congrArg List.length hkept'.events
  have hle := (hbefore.filter fun e => decide (e.planId ≠ planId)).length_le
  have hsingle : ([e].filter fun e => decide (e.planId ≠ planId)) = [e] := by simp [hplan]
  rw [hkept.events] at hle
  rw [hevents, List.filter_append, hsingle, List.length_append, List.length_singleton] at hlength
  omega

/-! ## Updates -/

/-- The plan is a branch of an open plan. -/
def Db.parentOpen (db : Db) (plan : PlanRow) : Prop :=
  plan.parentPlanId.any fun id => (db.plan id).any (·.status.isOpen)

theorem plan_node (db : Db) (id : Uuid) :
    (db.plan id).map PlanRow.node = db.tree.find? fun n => decide (n.id = id) := by
  unfold Db.plan Db.tree
  rw [List.find?_map]
  rfl

/-- Setting the status that the plan has opens and closes none. -/
theorem open_setStatus {current : PlanRow} (hcurrent : db.plan planId = some current)
    (htree : db'.tree = db.tree.map (Node.setStatus planId current.status)) (id : Uuid) :
    (db'.plan id).any (·.status.isOpen) = (db.plan id).any (·.status.isOpen) := by
  have hnode : ∀ plan : Option PlanRow,
      plan.any (·.status.isOpen) = (plan.map PlanRow.node).any (·.status.isOpen) := by
    intro plan
    cases plan <;> rfl
  have hid : ((fun n : Node => decide (n.id = id)) ∘ Node.setStatus planId current.status) =
      fun n => decide (n.id = id) := by
    funext n
    unfold Node.setStatus
    rw [Function.comp_apply]
    split <;> rfl
  rw [hnode, hnode, plan_node, htree, List.find?_map, hid, ← plan_node]
  cases hplan : db.plan id with
  | none => rfl
  | some q =>
      rw [Option.map_some, Option.map_some, Option.any_some, Option.any_some]
      unfold Node.setStatus
      split
      · rename_i hq
        have hqid : q.id = id := (plan_mem hplan).2
        rw [show id = planId from hqid.symm.trans hq, hcurrent] at hplan
        obtain rfl := Option.some.inj hplan
        rfl
      · rfl

theorem PlanStatus.text_injective {status status' : PlanStatus} (h : status.text = status'.text) :
    status = status' := by
  cases status <;> cases status' <;> first | rfl | (revert h; decide)

/-- The closing of a plan that is closed already. -/
theorem closeBranchIntoParent_local {current : PlanRow} {closing : Db}
    (hcurrent : db.plan planId = some current) (hclosed : ¬ current.status.isOpen)
    (hkept : OthersKept planId db closing)
    (htree : closing.tree = db.tree.map (Node.setStatus planId current.status)) :
    Yields (closeBranchIntoParent ptys closing now planId current.parentPlanId current.status actor
      note) fun db' =>
        OthersKept planId db db' ↔ current.status.isOpen ∨ ¬ db.parentOpen current := by
  cases hparent : current.parentPlanId.filter fun id => (closing.plan id).any (·.status.isOpen) with
  | none =>
      unfold closeBranchIntoParent
      rw [hparent]
      refine .ok (iff_of_true (hkept.trans .detachAll) (.inr ?_))
      unfold Db.parentOpen
      intro hopen
      cases hid : current.parentPlanId with
      | none =>
          rw [hid] at hopen
          cases hopen
      | some id =>
          rw [hid, Option.any_some] at hopen
          rw [hid, Option.filter_some, open_setStatus hcurrent htree, if_pos hopen] at hparent
          cases hparent
  | some parentId =>
      obtain ⟨hid, hopen⟩ := Option.filter_eq_some_iff.mp hparent
      rw [open_setStatus hcurrent htree] at hopen
      refine (events_closeBranchIntoParent hparent).mono ?_
      rintro db' ⟨events, e, hevents, rfl, hbefore⟩
      have hne : e.planId ≠ planId := by
        intro heq
        rw [heq, hcurrent] at hopen
        exact hclosed hopen
      have hopenParent : db.parentOpen current := by
        unfold Db.parentOpen
        rw [hid]
        exact hopen
      refine iff_of_false ?_ ?_
      · exact hkept.not_of_event hevents hne hbefore
      · rintro (h | h)
        · exact hclosed h
        · exact h hopenParent

/-- **An update that keeps the status of a plan changes no other plan, unless the plan is closed
and a branch of an open plan.** The closing runs once more then: it adds an event to the parent,
whose blocked anchors it releases. -/
theorem update_local_iff {input : UpdatePlanInput} {current : PlanRow}
    (hcurrent : db.plan planId = some current)
    (hsame : input.status.getD current.status.text = current.status.text)
    (hdb' : update ptys db now planId input actor = .ok db') :
    OthersKept planId db db' ↔ current.status.isOpen ∨ ¬ db.parentOpen current := by
  revert db'
  suffices hyields : Yields (update ptys db now planId input actor) fun db' =>
      OthersKept planId db db' ↔ current.status.isOpen ∨ ¬ db.parentOpen current from
    fun {db'} hdb' => hyields db' hdb'
  unfold update
  rw [hcurrent]
  refine .skip fun _ => .bind (P := fun p => p = current) (fun p hp => (Except.ok.inj hp).symm) ?_
  rintro p rfl
  rw [hsame]
  refine .skip fun title => .skip fun summary => .skip fun guidance => ?_
  refine .bind yields_validatePlanStatus fun status hstatus => .skip fun note => ?_
  obtain rfl := PlanStatus.text_injective hstatus
  refine .require fun _ => .require fun _ => .require fun _ => ?_
  -- The rows before the closing: only the plan itself is written, and its status stays.
  have hlogged : ∀ (skipped : Db) (eventType : EventType) (f : PlanRow → PlanRow),
      (∀ p, (f p).id = p.id) → OthersKept planId skipped (insertEvent (recordChange
        (skipped.updatePlan planId f) now planId actor (some p.guidance) guidance note) now planId
          none eventType actor (some p.status.text) (some p.status.text) note) :=
    fun skipped eventType f hf =>
      ((OthersKept.updatePlan hf).trans .recordChange).trans .insertEvent
  have hskipped : OthersKept planId db (if !p.status.isOpen && input.skipRemaining then
      skipRemainingPhases db now planId actor note else db) := by
    split
    · exact .skipRemainingPhases
    · exact .refl planId db
  by_cases hopen : p.status.isOpen
  · rw [if_pos hopen]
    refine .ok (iff_of_true ?_ (.inl hopen))
    refine hskipped.trans (hlogged _ _ _ ?_)
    exact fun _ => rfl
  · rw [if_neg hopen]
    have htree : ∀ (eventType : EventType) (f : PlanRow → PlanRow),
        (∀ q, (f q).node = ⟨q.id, q.parentPlanId, p.status⟩) → (insertEvent (recordChange
          ((if !p.status.isOpen && input.skipRemaining then
            skipRemainingPhases db now planId actor note else db).updatePlan planId f) now planId
              actor (some p.guidance) guidance note) now planId none eventType actor
                (some p.status.text) (some p.status.text) note).tree =
          db.tree.map (Node.setStatus planId p.status) := by
      intro eventType f hf
      rw [tree_insertEvent, tree_recordChange, tree_setStatus f hf]
      split
      · rw [tree_skipRemainingPhases]
      · rfl
    refine closeBranchIntoParent_local hcurrent hopen ?_ ?_
    · refine hskipped.trans (hlogged _ _ _ ?_)
      exact fun _ => rfl
    · refine htree _ _ ?_
      exact fun _ => rfl

/-- The summary of a plan is saved anew by a user. -/
def resave (db : Db) (planId : Uuid) : Except String Db :=
  update (fun _ => none) db 9 planId { summary := some "new" } ⟨"user", none, none⟩

theorem eq_ok_of_toOption {α : Type} {x : Except String α} {a : α} (h : a ∈ x.toOption) :
    x = .ok a := by
  cases x with
  | error e => cases h
  | ok b => exact congrArg Except.ok (Option.some.inj h)

/-- An open branch is edited. -/
theorem update_local_iff_branched :
    ∃ s ∈ runList (planStep fun _ => none) (.new 0) branched, ∃ db',
      resave s.db 11 = .ok db' ∧ OthersKept 11 s.db db' := by
  have hstate : ∃ s ∈ runList (planStep fun _ => none) (.new 0) branched,
      ∃ current ∈ s.db.plan 11, current.status.isOpen ∧ ∃ db', db' ∈ (resave s.db 11).toOption := by
    have hsaved : ∃ s ∈ runList (planStep fun _ => none) (.new 0) branched,
        ∃ current ∈ s.db.plan 11, current.status.isOpen ∧ (resave s.db 11).toOption.isSome := by
      decide +kernel
    obtain ⟨s, hs, current, hcurrent, hopen, hsome⟩ := hsaved
    exact ⟨s, hs, current, hcurrent, hopen, Option.isSome_iff_exists.mp hsome⟩
  obtain ⟨s, hs, current, hcurrent, hopen, db', hsaved⟩ := hstate
  have hdb' : resave s.db 11 = .ok db' := eq_ok_of_toOption hsaved
  exact ⟨s, hs, db', hdb', (update_local_iff hcurrent rfl hdb').mpr (.inl hopen)⟩

/-- The branch is completed, and then its anchor phase `2` is blocked once more. -/
def reblockedAnchor : List Call :=
  branched ++ [sampleCall 2 0 (.update 11 { status := some "completed", skipRemaining := true }),
    sampleCall 3 0 (.updatePhase 1 2 { status := some "blocked" })]

/-- The branch is completed already; its edit puts the anchor phase back in progress. -/
theorem reblockedAnchor_released :
    ∃ s, Run (planStep fun _ => none) anyStep (.new 0) s ∧ ∃ db', resave s.db 11 = .ok db' ∧
      (∀ p ∈ s.db.plan 11, ∀ p' ∈ db'.plan 11, p'.status = p.status) ∧
        (∃ p ∈ s.db.phases, p.id = 2 ∧ p.status = .blocked) ∧
        (∃ p ∈ db'.phases, p.id = 2 ∧ p.status = .inProgress) ∧ ¬ OthersKept 11 s.db db' := by
  have hstate : ∃ s ∈ runList (planStep fun _ => none) (.new 0) reblockedAnchor,
      ∃ db' ∈ (resave s.db 11).toOption,
        (∀ p ∈ s.db.plan 11, ∀ p' ∈ db'.plan 11, p'.status = p.status) ∧
        (∃ p ∈ s.db.phases, p.id = 2 ∧ p.status = .blocked) ∧
        (∃ p ∈ db'.phases, p.id = 2 ∧ p.status = .inProgress) ∧
        ((s.db.phases.filter fun p => decide (p.planId ≠ 11)).map (·.status)) ≠
          (db'.phases.filter fun p => decide (p.planId ≠ 11)).map (·.status) := by
    decide +kernel
  obtain ⟨s, hs, db', hdb', hstatus, hblocked, hreleased, hne⟩ := hstate
  refine ⟨s, .of_runList _ hs, db', eq_ok_of_toOption hdb', hstatus, hblocked, hreleased, ?_⟩
  refine fun hkept => hne ?_
  exact congrArg (List.map _) hkept.phases.symm

end Sulion.Plans
