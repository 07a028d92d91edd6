import Sulion.Plans.Tree

set_option autoImplicit false

/-! # The history of phases

Every change of a phase's status is an event, except that a phase that anchors a branch is put
under way without one. `Logged` says how the events of a phase that anchors no branch tell its
status: in the order they were inserted, which is the order of the locks, the last one names it.
Events are dated with the start of their transactions, so `StartsInOrder` is needed for the same
order by date.
-/

namespace Sulion.Plans

open Transition

/-- The event types that carry the status of a phase. -/
def EventType.isStatus : EventType → Bool
  | .phaseAdded | .phaseStatusChanged | .phaseUpdated => true
  | _ => false

/-- The event gives a status of the phase. -/
def PlanEvent.records (e : PlanEvent) (phaseId : Uuid) : Bool :=
  decide (e.phaseId = some phaseId) && e.eventType.isStatus

/-- A branch is anchored to the phase. -/
def Db.anchored (db : Db) (phaseId : Uuid) : Bool :=
  db.anchors.any fun a => decide (a.parentPhaseId = phaseId)

/-- The dated statuses of a phase in a list of events. -/
def statusEvents (phaseId : Uuid) (events : List PlanEvent) : List (Timestamp × String) :=
  (events.filter (·.records phaseId)).filterMap fun e => e.toStatus.map fun status =>
    (e.createdAt, status)

/-- How the events tell the statuses of the phases that anchor no branch. -/
structure Logged (clock : Timestamp) (db : Db) : Prop where
  eventIds : db.events.Pairwise fun e e' => e.id < e'.id
  nextId : ∀ e ∈ db.events, e.id < db.events.length
  phaseIds : db.phases.Pairwise fun p q => p.id ≠ q.id
  known : ∀ e ∈ db.events, ∀ phaseId, e.records phaseId → ∃ p ∈ db.phases, p.id = phaseId
  eventsPast : ∀ e ∈ db.events, e.createdAt ≤ clock
  phasesPast : ∀ p ∈ db.phases, p.createdAt ≤ clock
  planOf : ∀ p ∈ db.phases, ¬ db.anchored p.id → ∀ e ∈ db.events, e.records p.id →
    e.planId = p.planId
  inOrder : ∀ p ∈ db.phases, ¬ db.anchored p.id →
    (db.events.filter (·.records p.id)).Pairwise fun e e' => e.createdAt ≤ e'.createdAt
  last : ∀ p ∈ db.phases, ¬ db.anchored p.id →
    (statusEvents p.id db.events).getLast?.map (·.2) = some p.status.text

variable {clock now : Timestamp} {db db' : Db} {planId phaseId : Uuid} {actor : PlanActor}
  {ptys : Uuid → Option PtySession} {note : Option String}

namespace Logged

theorem empty (clock : Timestamp) : Logged clock .empty := by
  constructor <;> simp [Db.empty]

theorem tick (h : Logged clock db) (hle : clock ≤ now) : Logged now db :=
  { h with
    eventsPast := fun e he => (h.eventsPast e he).trans hle
    phasesPast := fun p hp => (h.phasesPast p hp).trans hle }

/-- Plans and attachments do not matter. -/
theorem of_eq (h : Logged clock db) (hphases : db'.phases = db.phases)
    (hanchors : db'.anchors = db.anchors) (hevents : db'.events = db.events) :
    Logged clock db' := by
  have hanchored : ∀ id, db'.anchored id = db.anchored id := by
    intro id
    unfold Db.anchored
    rw [hanchors]
  constructor
  · exact hevents ▸ h.eventIds
  · exact hevents ▸ h.nextId
  · exact hphases ▸ h.phaseIds
  · rw [hevents, hphases]
    exact h.known
  · exact hevents ▸ h.eventsPast
  · exact hphases ▸ h.phasesPast
  · rw [hevents, hphases]
    simpa only [hanchored] using h.planOf
  · rw [hevents, hphases]
    simpa only [hanchored] using h.inOrder
  · rw [hevents, hphases]
    simpa only [hanchored] using h.last

/-- An event is appended that gives no status of a phase without branches. -/
theorem log (h : Logged clock db) {event : Nat → PlanEvent}
    (hpast : (event db.events.length).createdAt ≤ clock)
    (hid : (event db.events.length).id = db.events.length)
    (hrecords : ∀ phaseId, (event db.events.length).records phaseId → db.anchored phaseId ∧
      ∃ p ∈ db.phases, p.id = phaseId) :
    Logged clock (db.log event) := by
  have hskip : ∀ p : PhaseRow, ¬ db.anchored p.id →
      (db.log event).events.filter (·.records p.id) = db.events.filter (·.records p.id) := by
    intro p hleaf
    have hnot : ¬ (event db.events.length).records p.id := fun hrec =>
      hleaf (hrecords p.id hrec).1
    unfold Db.log
    rw [List.filter_append]
    simp [hnot]
  constructor
  · refine List.pairwise_append.mpr ⟨h.eventIds, List.pairwise_singleton _ _, ?_⟩
    intro e he e' he'
    rw [List.mem_singleton.mp he', hid]
    exact h.nextId e he
  · intro e he
    have hlen : (db.log event).events.length = db.events.length + 1 := by simp [Db.log]
    rcases List.mem_append.mp he with he | he
    · have := h.nextId e he
      omega
    · rw [List.mem_singleton.mp he, hid]
      omega
  · exact h.phaseIds
  · intro e he id hrec
    rcases List.mem_append.mp he with he | he
    · exact h.known e he id hrec
    · rw [List.mem_singleton.mp he] at hrec
      exact (hrecords id hrec).2
  · intro e he
    rcases List.mem_append.mp he with he | he
    · exact h.eventsPast e he
    · rw [List.mem_singleton.mp he]
      exact hpast
  · exact h.phasesPast
  · intro p hp hleaf e he hrec
    rcases List.mem_append.mp he with he | he
    · exact h.planOf p hp hleaf e he hrec
    · rw [List.mem_singleton.mp he] at hrec
      exact absurd (hrecords p.id hrec).1 hleaf
  · intro p hp hleaf
    rw [hskip p hleaf]
    exact h.inOrder p hp hleaf
  · intro p hp hleaf
    have hlast := h.last p hp hleaf
    unfold statusEvents at hlast ⊢
    rw [hskip p hleaf]
    exact hlast

/-- An event that is not about the status of a phase. -/
theorem insertEvent (h : Logged clock db) (hpast : now ≤ clock) {id : Option Uuid}
    {eventType : EventType} {fromStatus toStatus : Option String}
    (hother : id = none ∨ eventType.isStatus = false) :
    Logged clock (insertEvent db now planId id eventType actor fromStatus toStatus note) := by
  refine h.log hpast rfl fun phaseId hrec => ?_
  rcases hother with rfl | hother <;> simp [PlanEvent.records] at hrec
  rw [hother] at hrec
  cases hrec.2

theorem recordChange (h : Logged clock db) (hpast : now ≤ clock) {before : Option PlanGuidance}
    {after : PlanGuidance} :
    Logged clock (recordChange db now planId actor before after note) := by
  unfold Plans.recordChange
  split
  · exact h
  · exact h.log hpast rfl fun phaseId hrec => by simp [PlanEvent.records] at hrec

/-- Rows of phases change, and the status only where a branch is anchored. -/
theorem updatePhases (h : Logged clock db) {selected : PhaseRow → Bool}
    {set : PhaseRow → PhaseRow}
    (hset : ∀ p, (set p).id = p.id ∧ (set p).planId = p.planId ∧ (set p).createdAt = p.createdAt)
    (hstatus : ∀ p ∈ db.phases, selected p → ¬ db.anchored p.id → (set p).status = p.status) :
    Logged clock (db.updatePhases selected set) := by
  have hrow : ∀ p : PhaseRow, (if selected p then set p else p).id = p.id ∧
      (if selected p then set p else p).planId = p.planId ∧
      (if selected p then set p else p).createdAt = p.createdAt := by
    intro p
    split
    · exact hset p
    · exact ⟨rfl, rfl, rfl⟩
  constructor
  · exact h.eventIds
  · exact h.nextId
  · refine List.pairwise_map.mpr (h.phaseIds.imp fun {p q} hne => ?_)
    rwa [(hrow p).1, (hrow q).1]
  · intro e he id hrec
    obtain ⟨p, hp, hid⟩ := h.known e he id hrec
    exact ⟨_, List.mem_map_of_mem hp, (hrow p).1.trans hid⟩
  · exact h.eventsPast
  · intro p' hp'
    obtain ⟨p, hp, rfl⟩ := List.mem_map.mp hp'
    rw [(hrow p).2.2]
    exact h.phasesPast p hp
  · intro p' hp' hleaf e he hrec
    obtain ⟨p, hp, rfl⟩ := List.mem_map.mp hp'
    rw [(hrow p).1] at hleaf hrec
    rw [(hrow p).2.1]
    exact h.planOf p hp hleaf e he hrec
  · intro p' hp' hleaf
    obtain ⟨p, hp, rfl⟩ := List.mem_map.mp hp'
    rw [(hrow p).1] at hleaf ⊢
    exact h.inOrder p hp hleaf
  · intro p' hp' hleaf
    obtain ⟨p, hp, rfl⟩ := List.mem_map.mp hp'
    rw [(hrow p).1] at hleaf ⊢
    have hsame : (if selected p then set p else p).status = p.status := by
      split
      · rename_i hselected
        exact hstatus p hp hselected hleaf
      · rfl
    rw [hsame]
    exact h.last p hp hleaf

/-- **A status is recorded.** The event is appended, and the phase it names has the status of the
event in the new rows; the other phases stay. -/
theorem record (h : Logged clock db) (phaseId : Uuid) {event : PlanEvent} {status : PhaseStatus}
    (hevents : db'.events = db.events ++ [event]) (hanchors : db'.anchors = db.anchors)
    (hid : event.id = db.events.length) (hpast : event.createdAt ≤ clock)
    (hrecords : ∀ id, event.records id ↔ phaseId = id)
    (hstatus : event.toStatus = some status.text)
    (hphaseIds : db'.phases.Pairwise fun p q => p.id ≠ q.id)
    (hphasesPast : ∀ p ∈ db'.phases, p.createdAt ≤ clock)
    (hkept : ∀ id, (∃ p ∈ db.phases, p.id = id) ∨ phaseId = id → ∃ p ∈ db'.phases, p.id = id)
    (hrows : ∀ p ∈ db'.phases, if phaseId = p.id then
        p.status = status ∧ p.planId = event.planId ∧
          (¬ db.anchored p.id → ∀ e ∈ db.events, e.records p.id →
            e.planId = p.planId ∧ e.createdAt ≤ event.createdAt) ∧
          (¬ db.anchored p.id → (db.events.filter (·.records p.id)).Pairwise fun e e' =>
            e.createdAt ≤ e'.createdAt)
      else ∃ q ∈ db.phases, q.id = p.id ∧ q.planId = p.planId ∧ q.status = p.status) :
    Logged clock db' := by
  have hanchored : ∀ id, db'.anchored id = db.anchored id := by
    intro id
    unfold Db.anchored
    rw [hanchors]
  have hfilter : ∀ id, db'.events.filter (·.records id) =
      db.events.filter (·.records id) ++ if phaseId = id then [event] else [] := by
    intro id
    rw [hevents, List.filter_append]
    congr 1
    by_cases heq : phaseId = id
    · rw [if_pos heq]
      simp [(hrecords id).mpr heq]
    · rw [if_neg heq]
      have hnot : ¬ event.records id := fun hrec => heq ((hrecords id).mp hrec)
      simp [hnot]
  constructor
  · rw [hevents]
    refine List.pairwise_append.mpr ⟨h.eventIds, List.pairwise_singleton _ _, ?_⟩
    intro e he e' he'
    rw [List.mem_singleton.mp he', hid]
    exact h.nextId e he
  · intro e he
    rw [hevents] at he ⊢
    rw [List.length_append, List.length_singleton]
    rcases List.mem_append.mp he with he | he
    · have := h.nextId e he
      omega
    · rw [List.mem_singleton.mp he, hid]
      omega
  · exact hphaseIds
  · intro e he id hrec
    rw [hevents] at he
    apply hkept
    rcases List.mem_append.mp he with he | he
    · exact .inl (h.known e he id hrec)
    · rw [List.mem_singleton.mp he] at hrec
      exact .inr ((hrecords id).mp hrec)
  · intro e he
    rw [hevents] at he
    rcases List.mem_append.mp he with he | he
    · exact h.eventsPast e he
    · rw [List.mem_singleton.mp he]
      exact hpast
  · exact hphasesPast
  · intro p hp hleaf e he hrec
    rw [hanchored] at hleaf
    rw [hevents] at he
    have hrow := hrows p hp
    split_ifs at hrow with heq
    · rcases List.mem_append.mp he with he | he
      · exact (hrow.2.2.1 hleaf e he hrec).1
      · rw [List.mem_singleton.mp he]
        exact hrow.2.1.symm
    · obtain ⟨q, hq, hqid, hqplan, _⟩ := hrow
      rcases List.mem_append.mp he with he | he
      · rw [← hqplan]
        rw [← hqid] at hleaf hrec
        exact h.planOf q hq hleaf e he hrec
      · rw [List.mem_singleton.mp he] at hrec
        exact absurd ((hrecords p.id).mp hrec) heq
  · intro p hp hleaf
    rw [hanchored] at hleaf
    rw [hfilter]
    have hrow := hrows p hp
    split_ifs at hrow ⊢ with heq
    · refine List.pairwise_append.mpr ⟨hrow.2.2.2 hleaf, List.pairwise_singleton _ _, ?_⟩
      intro e he e' he'
      rw [List.mem_singleton.mp he']
      exact (hrow.2.2.1 hleaf e (List.mem_filter.mp he).1 (List.mem_filter.mp he).2).2
    · obtain ⟨q, hq, hqid, _, _⟩ := hrow
      rw [← hqid] at hleaf ⊢
      rw [List.append_nil]
      exact h.inOrder q hq hleaf
  · intro p hp hleaf
    rw [hanchored] at hleaf
    unfold statusEvents
    rw [hfilter]
    have hrow := hrows p hp
    split_ifs at hrow ⊢ with heq
    · rw [hrow.1]
      simp [hstatus]
    · obtain ⟨q, hq, hqid, _, hqstatus⟩ := hrow
      rw [← hqid] at hleaf ⊢
      rw [List.append_nil, ← hqstatus]
      exact h.last q hq hleaf

/-- The row of a phase and the event that records its status are written. -/
theorem setStatus (h : Logged clock db) (hpast : now ≤ clock) (status : PhaseStatus)
    {eventType : EventType} (htype : eventType.isStatus)
    (hphase : ∃ p ∈ db.phases, p.id = phaseId ∧ p.planId = planId) {selected : PhaseRow → Bool}
    {set : PhaseRow → PhaseRow} {fromStatus : Option String}
    (hselected : ∀ p ∈ db.phases, selected p ↔ p.id = phaseId)
    (hset : ∀ p, (set p).id = p.id ∧ (set p).planId = p.planId ∧ (set p).createdAt = p.createdAt ∧
      (set p).status = status)
    (horder : ¬ db.anchored phaseId → ∀ e ∈ db.events, e.records phaseId → e.createdAt ≤ now) :
    Logged clock (Plans.insertEvent (db.updatePhases selected set) now planId (some phaseId)
      eventType actor fromStatus (some status.text) note) := by
  obtain ⟨phase, hphase, rfl, rfl⟩ := hphase
  have hrow : ∀ p : PhaseRow, (if selected p then set p else p).id = p.id ∧
      (if selected p then set p else p).planId = p.planId ∧
      (if selected p then set p else p).createdAt = p.createdAt := by
    intro p
    split
    · exact ⟨(hset p).1, (hset p).2.1, (hset p).2.2.1⟩
    · exact ⟨rfl, rfl, rfl⟩
  refine h.record phase.id rfl rfl rfl hpast ?_ rfl ?_ ?_ ?_ ?_
  · intro id
    simp [PlanEvent.records, htype]
  · refine List.pairwise_map.mpr (h.phaseIds.imp fun {p q} hne => ?_)
    rwa [(hrow p).1, (hrow q).1]
  · intro p' hp'
    obtain ⟨p, hp, rfl⟩ := List.mem_map.mp hp'
    rw [(hrow p).2.2]
    exact h.phasesPast p hp
  · intro id hor
    have hold : ∃ p ∈ db.phases, p.id = id := by
      rcases hor with hold | heq
      · exact hold
      · exact ⟨phase, hphase, heq⟩
    obtain ⟨p, hp, hid⟩ := hold
    exact ⟨_, List.mem_map_of_mem hp, (hrow p).1.trans hid⟩
  · intro p' hp'
    obtain ⟨p, hp, rfl⟩ := List.mem_map.mp hp'
    rw [(hrow p).1, (hrow p).2.1]
    by_cases heq : phase.id = p.id
    · have hsame : phase = p :=
        List.inj_on_of_nodup_map (List.pairwise_map.mpr h.phaseIds) hphase hp heq
      subst hsame
      rw [if_pos rfl, if_pos ((hselected phase hp).mpr rfl)]
      refine ⟨(hset phase).2.2.2, rfl, ?_, h.inOrder phase hp⟩
      intro hleaf e he hrec
      exact ⟨h.planOf phase hp hleaf e he hrec, horder hleaf e he hrec⟩
    · have hnot : ¬ selected p := fun hsel => heq ((hselected p hp).mp hsel).symm
      rw [if_neg heq, if_neg hnot]
      exact ⟨p, hp, rfl, rfl, rfl⟩

/-- A phase is added, and its event. -/
theorem insertPhase (h : Logged clock db) (hpast : now ≤ clock) {position : Int}
    {phase : CheckedPhase} {completedAt : Option Timestamp} :
    Yields (insertPhase db now planId phaseId position phase actor completedAt)
      (Logged clock) := by
  unfold Plans.insertPhase
  refine .require fun hfree => .ok ?_
  have hnew : ∀ p ∈ db.phases, p.id ≠ phaseId := fun p hp =>
    of_decide_eq_true (List.all_eq_true.mp hfree p hp)
  have hnone : ∀ e ∈ db.events, ¬ e.records phaseId := by
    intro e he hrec
    obtain ⟨p, hp, hid⟩ := h.known e he phaseId hrec
    exact hnew p hp hid
  refine h.record phaseId rfl rfl rfl hpast ?_ rfl ?_ ?_ ?_ ?_
  · intro id
    simp [PlanEvent.records, EventType.isStatus]
  · refine List.pairwise_append.mpr ⟨h.phaseIds, List.pairwise_singleton _ _, ?_⟩
    intro p hp q hq
    rw [List.mem_singleton.mp hq]
    exact hnew p hp
  · intro p hp
    rcases List.mem_append.mp hp with hp | hp
    · exact h.phasesPast p hp
    · rw [List.mem_singleton.mp hp]
      exact hpast
  · rintro id (⟨p, hp, hid⟩ | heq)
    · exact ⟨p, List.mem_append_left _ hp, hid⟩
    · exact ⟨_, List.mem_append_right _ (List.mem_singleton_self _), heq⟩
  · intro p hp
    rcases List.mem_append.mp hp with hp | hp
    · rw [if_neg fun heq => hnew p hp heq.symm]
      exact ⟨p, hp, rfl, rfl, rfl⟩
    · rw [List.mem_singleton.mp hp, if_pos rfl]
      refine ⟨rfl, rfl, ?_, ?_⟩
      · intro _ e he hrec
        exact absurd hrec (hnone e he)
      · intro _
        have hempty : db.events.filter (·.records phaseId) = [] :=
          List.filter_eq_nil_iff.mpr hnone
        rw [hempty]
        exact .nil

/-- A branch is anchored to a phase. -/
theorem insertAnchor (h : Logged clock db) (anchor : Anchor) :
    Logged clock { db with anchors := db.anchors ++ [anchor] } := by
  have hleaf : ∀ id, ¬ ({ db with anchors := db.anchors ++ [anchor] } : Db).anchored id →
      ¬ db.anchored id := by
    intro id hnot hanchored
    apply hnot
    unfold Db.anchored at hanchored ⊢
    rw [List.any_append, hanchored, Bool.true_or]
  exact { h with
    planOf := fun p hp hnot => h.planOf p hp (hleaf p.id hnot)
    inOrder := fun p hp hnot => h.inOrder p hp (hleaf p.id hnot)
    last := fun p hp hnot => h.last p hp (hleaf p.id hnot) }

/-! ## Operations -/

theorem bumpRevision (h : Logged clock db) : Logged clock (bumpRevision db now planId) :=
  h.of_eq rfl rfl rfl

theorem foldl {α : Type} (turn : Db → α → Db) (l : List α) (h : Logged clock db)
    (hturn : ∀ db, ∀ a ∈ l, Logged clock db → Logged clock (turn db a)) :
    Logged clock (l.foldl turn db) := by
  induction l generalizing db with
  | nil => exact h
  | cons a l ih =>
      exact ih (hturn db a (List.mem_cons_self ..) h) fun db b hb =>
        hturn db b (List.mem_cons_of_mem _ hb)

theorem leaveOldPlan (h : Logged clock db) (hpast : now ≤ clock) {ptyId : Uuid} :
    Logged clock (leaveOldPlan db now ptyId actor) := by
  unfold Plans.leaveOldPlan
  split
  · exact h
  · refine Logged.insertEvent ?_ hpast (.inl rfl)
    exact h.of_eq rfl rfl rfl

theorem attachInTx (h : Logged clock db) (hpast : now ≤ clock) {ptyId : Uuid} {bump : Bool} :
    Yields (attachInTx ptys db now planId ptyId actor bump) (Logged clock) := by
  unfold Plans.attachInTx
  refine .skip fun plan => .skip fun session => .require fun _ => .ite (fun _ => .ok h) fun _ => ?_
  refine .ok (Logged.insertEvent ?_ hpast (.inl rfl))
  have hleft : Logged clock (Plans.leaveOldPlan db now ptyId actor) := h.leaveOldPlan hpast
  cases bump with
  | false => exact hleft.of_eq rfl rfl rfl
  | true => exact hleft.of_eq rfl rfl rfl

theorem insertPlan (h : Logged clock db) (hpast : now ≤ clock) {repoName title summary : String}
    {guidance : PlanGuidance} {parent : Option Uuid} {rootPlanId : Uuid} {depth : Nat} :
    Yields (insertPlan db now planId repoName title summary guidance parent rootPlanId depth actor)
      (Logged clock) := by
  unfold Plans.insertPlan
  refine .require fun _ => .ok (Logged.recordChange ?_ hpast)
  refine Logged.insertEvent ?_ hpast (.inl rfl)
  exact h.of_eq rfl rfl rfl

theorem insertPhases (h : Logged clock db) (hpast : now ≤ clock) {newId : Nat → Uuid}
    {phases : List CheckedPhase} :
    Yields (insertPhases db now newId planId phases actor) (Logged clock) := by
  unfold Plans.insertPhases
  refine .foldlM h ?_
  rintro db' ⟨phase, index⟩ _ hdb'
  exact hdb'.insertPhase hpast

theorem create (h : Logged clock db) (hpast : now ≤ clock) {newId : Nat → Uuid}
    {input : CreatePlanInput} :
    Yields (create ptys db now newId input actor) (Logged clock) := by
  unfold Plans.create
  refine .skip fun _ => .skip fun _ => .skip fun _ => .skip fun _ => .skip fun _ =>
    .skip fun _ => ?_
  refine .bind (h.insertPlan hpast) fun db₁ h₁ => .bind (h₁.insertPhases hpast) fun db₂ h₂ => ?_
  split
  · exact h₂.attachInTx hpast
  · exact .ok h₂

/-- The phase that a branch is opened under is anchored when it is put under way. -/
theorem openBranchUnder (h : Logged clock db) (hpast : now ≤ clock) {parentPlanId anchor : Uuid}
    {note : String} :
    Logged clock (openBranchUnder now parentPlanId planId note actor db anchor) := by
  have hanchor : Logged clock { db with anchors := db.anchors ++ [⟨planId, anchor, now⟩] } :=
    h.insertAnchor _
  refine Logged.insertEvent (hanchor.updatePhases ?_ ?_) hpast (.inr rfl)
  · intro p
    exact ⟨rfl, rfl, rfl⟩
  · intro p _ hselected hleaf
    have hid : p.id = anchor := (of_decide_eq_true hselected).1
    apply absurd _ hleaf
    simp [Db.anchored, hid]

theorem branch (h : Logged clock db) (hpast : now ≤ clock) {newId : Nat → Uuid}
    {parseUuid : String → Option Uuid} {parentPlanId : Uuid} {input : BranchPlanInput} :
    Yields (branch parseUuid ptys db now newId parentPlanId input actor) (Logged clock) := by
  unfold Plans.branch
  refine .skip fun _ => .skip fun _ => .skip fun _ => .skip fun _ => .skip fun _ =>
    .skip fun _ => ?_
  refine .skip fun _ => .require fun _ => .skip fun anchors => ?_
  refine .bind (h.insertPlan hpast) fun db₁ h₁ => .bind (h₁.insertPhases hpast) fun db₂ h₂ => ?_
  have hopened : ∀ note, Logged clock (Plans.bumpRevision (anchors.foldl
      (Plans.openBranchUnder now parentPlanId (newId 0) note actor) db₂) now parentPlanId) :=
    fun note => (h₂.foldl _ _ fun db _ _ hdb => hdb.openBranchUnder hpast).bumpRevision
  split
  · exact (hopened _).attachInTx hpast
  · exact .ok (hopened _)

theorem addPhase (h : Logged clock db) (hpast : now ≤ clock) {newId : Nat → Uuid}
    {phase : NewPhase} : Yields (addPhase db now newId planId phase actor) (Logged clock) := by
  unfold Plans.addPhase
  refine .skip fun _ => .skip fun _ => .skip fun _ => .skip fun _ => .skip fun _ =>
    .skip fun _ => ?_
  exact .bind (h.insertPhase hpast) fun db' hdb' => .ok hdb'.bumpRevision

theorem attach (h : Logged clock db) (hpast : now ≤ clock) {ptyId : Uuid} :
    Yields (attach ptys db now planId ptyId actor) (Logged clock) := by
  unfold Plans.attach
  exact .skip fun _ => .skip fun _ => h.attachInTx hpast

theorem detach (h : Logged clock db) (hpast : now ≤ clock) {ptyId : Uuid} :
    Yields (detach db now planId ptyId actor) (Logged clock) := by
  unfold Plans.detach
  refine .skip fun _ => .ite (fun _ => .ok ?_) fun _ => .ok h
  refine Logged.insertEvent ?_ hpast (.inl rfl)
  exact h.of_eq rfl rfl rfl

theorem movePhase (h : Logged clock db) {oldPosition requestedPosition : Int} :
    Logged clock (movePhase db now planId phaseId oldPosition requestedPosition) := by
  unfold Plans.movePhase
  dsimp only
  have hmoved : ∀ (db : Db) (selected : PhaseRow → Bool) (set : PhaseRow → PhaseRow),
      Logged clock db → (∀ p, (set p).id = p.id ∧ (set p).planId = p.planId ∧
        (set p).createdAt = p.createdAt ∧ (set p).status = p.status) →
      Logged clock (db.updatePhases selected set) := fun db selected set hdb hset =>
    hdb.updatePhases (fun p => ⟨(hset p).1, (hset p).2.1, (hset p).2.2.1⟩) fun p _ _ _ =>
      (hset p).2.2.2
  split
  · exact h
  · refine hmoved _ _ _ ?_ fun p => ⟨rfl, rfl, rfl, rfl⟩
    split
    · exact hmoved _ _ _ h fun p => ⟨rfl, rfl, rfl, rfl⟩
    · exact hmoved _ _ _ h fun p => ⟨rfl, rfl, rfl, rfl⟩

/-- The anchors of a branch are phases, and they are anchored when they are released. -/
theorem releaseAnchors (h : Logged clock db) (hpast : now ≤ clock) {parentId : Uuid} :
    Logged clock (releaseAnchors db now planId parentId actor note) := by
  unfold Plans.releaseAnchors
  dsimp only
  have hblocked : ∀ p, db.isBlockedAnchor planId p → db.anchored p.id := by
    intro p hp
    simp only [Db.isBlockedAnchor, Bool.and_eq_true, List.any_eq_true] at hp
    obtain ⟨_, a, ha, hanchor⟩ := hp
    exact List.any_eq_true.mpr ⟨a, ha, decide_eq_true (of_decide_eq_true hanchor).2⟩
  have hreleased : Logged clock (db.updatePhases (db.isBlockedAnchor planId) fun p =>
      { p with status := .inProgress, updatedAt := now }) :=
    h.updatePhases (fun p => ⟨rfl, rfl, rfl⟩) fun p _ hselected hleaf =>
      absurd (hblocked p hselected) hleaf
  -- Each event names a phase of the table, which anchors the branch.
  have hloop : ∀ (ids : List Uuid) (db' : Db), Logged clock db' →
      (∀ id ∈ ids, db'.anchored id ∧ ∃ p ∈ db'.phases, p.id = id) →
      Logged clock (ids.foldl (releaseAnchor now parentId actor note) db') := by
    intro ids
    induction ids with
    | nil => exact fun _ hdb' _ => hdb'
    | cons id ids ih =>
        intro db' hdb' hids
        refine ih _ ?_ fun id' hid' => hids id' (List.mem_cons_of_mem _ hid')
        unfold releaseAnchor Plans.insertEvent
        refine hdb'.log hpast rfl fun phaseId hrec => ?_
        have hid : id = phaseId := by simpa [PlanEvent.records, EventType.isStatus] using hrec
        exact hid ▸ hids id (List.mem_cons_self ..)
  refine hloop _ _ hreleased fun id hid => ?_
  obtain ⟨p, hp, rfl⟩ := List.mem_map.mp hid
  obtain ⟨hp, hblock⟩ := List.mem_filter.mp hp
  refine ⟨hblocked p hblock, _, List.mem_map_of_mem hp, ?_⟩
  split <;> rfl

theorem closeBranchIntoParent (h : Logged clock db) (hpast : now ≤ clock) {parent : Option Uuid}
    {status : PlanStatus} :
    Yields (closeBranchIntoParent ptys db now planId parent status actor note)
      (Logged clock) := by
  unfold Plans.closeBranchIntoParent
  split
  · refine .ok ?_
    exact h.of_eq rfl rfl rfl
  · rename_i parentId _
    have hreleased : Logged clock (if status = .completed then
        Plans.releaseAnchors db now planId parentId actor note else db) := by
      split
      · exact h.releaseAnchors hpast
      · exact h
    refine .bind (P := Logged clock) (.foldlM (hreleased.of_eq rfl rfl rfl) ?_) ?_
    · intro db' ptyId _ hdb'
      unfold popPty
      exact .ite (fun _ => hdb'.attachInTx hpast) fun _ => .ok hdb'
    · intro db' hdb'
      exact .ok (Logged.insertEvent hdb'.bumpRevision hpast (.inl rfl))

end Logged

/-! ## Transactions that start in order -/

/-- The update closes the plan. -/
def Db.closes (db : Db) (planId : Uuid) (input : UpdatePlanInput) : Bool :=
  (db.plan planId).any fun current =>
    match validatePlanStatus (input.status.getD current.status.text) with
    | .ok status => !status.isOpen
    | .error _ => false

/-- The phases whose status an operation sets, other than those it inserts or releases. -/
def Operation.sets (db : Db) : Operation → List Uuid
  | .updatePhase _ phaseId _ => [phaseId]
  | .update planId input =>
      if input.skipRemaining && db.closes planId input
        then (db.unfinished planId).map (·.id) else []
  | _ => []

/-- A transaction that sets the status of a phase did not start before the last one that did. -/
def StartsInOrder (s : Store) (call : Call) : Prop :=
  ∀ phaseId ∈ call.operation.sets s.db, ¬ s.db.anchored phaseId →
    ∀ e ∈ s.db.events, e.records phaseId → e.createdAt ≤ call.startedAt

namespace Logged

/-- One phase after the other is skipped. -/
theorem skipRemainingPhases (h : Logged clock db) (hpast : now ≤ clock)
    (horder : ∀ phase ∈ db.unfinished planId, ¬ db.anchored phase.id →
      ∀ e ∈ db.events, e.records phase.id → e.createdAt ≤ now) :
    Logged clock (skipRemainingPhases db now planId actor note) := by
  have hloop : ∀ (phases : List PhaseRow) (db' : Db), Logged clock db' →
      (∀ phase ∈ phases, (∃ p ∈ db'.phases, p.id = phase.id ∧ p.planId = planId) ∧
        (¬ db'.anchored phase.id → ∀ e ∈ db'.events, e.records phase.id → e.createdAt ≤ now)) →
      Logged clock (phases.foldl (skipPhase now planId actor note) db') := by
    intro phases
    induction phases with
    | nil => exact fun _ hdb' _ => hdb'
    | cons phase phases ih =>
        intro db' hdb' hphases
        obtain ⟨hmem, hbefore⟩ := hphases phase (List.mem_cons_self ..)
        have hselected : ∀ p ∈ db'.phases,
            decide (p.planId = planId ∧ p.id = phase.id) ↔ p.id = phase.id := by
          intro p hp
          obtain ⟨q, hq, hqid, hqplan⟩ := hmem
          constructor
          · intro hboth
            exact (of_decide_eq_true hboth).2
          · intro hid
            have hsame : p = q := List.inj_on_of_nodup_map (List.pairwise_map.mpr hdb'.phaseIds) hp
              hq (hid.trans hqid.symm)
            exact decide_eq_true ⟨hsame ▸ hqplan, hid⟩
        refine ih _ ?_ fun other hother => ?_
        · exact hdb'.setStatus hpast .skipped rfl hmem hselected
            (fun p => ⟨rfl, rfl, rfl, rfl⟩) hbefore
        · -- The turn keeps the rows' keys, and its event is not later than its transaction.
          obtain ⟨⟨p, hp, hpid, hpplan⟩, hprevious⟩ := hphases other (List.mem_cons_of_mem _ hother)
          refine ⟨⟨_, List.mem_map_of_mem hp, ?_⟩, fun hleaf e he hrec => ?_⟩
          · split <;> exact ⟨hpid, hpplan⟩
          · rcases List.mem_append.mp he with he | he
            · exact hprevious hleaf e he hrec
            · rw [List.mem_singleton.mp he]
  refine hloop _ _ h fun phase hphase => ?_
  rw [List.mem_mergeSort] at hphase
  refine ⟨⟨phase, (List.mem_filter.mp hphase).1, rfl, ?_⟩, horder phase hphase⟩
  have hplan := (List.mem_filter.mp hphase).2
  rw [Bool.and_eq_true] at hplan
  exact of_decide_eq_true hplan.1

theorem yields_phase {error : String} : Yields ((db.phases.find? fun p =>
    decide (p.id = phaseId ∧ p.planId = planId)).elim (.error error) .ok)
    fun p => p ∈ db.phases ∧ p.id = phaseId ∧ p.planId = planId := by
  intro p hp
  cases hfind : db.phases.find? fun p => decide (p.id = phaseId ∧ p.planId = planId) with
  | none =>
      rw [hfind] at hp
      cases hp
  | some q =>
      rw [hfind] at hp
      obtain rfl := Except.ok.inj hp
      exact ⟨List.mem_of_find?_eq_some hfind, by simpa using List.find?_some hfind⟩

/-- The phases keep their keys, and anchors and events stay. -/
def SameHistory (db db' : Db) : Prop :=
  (∀ p ∈ db.phases, ∃ q ∈ db'.phases, q.id = p.id ∧ q.planId = p.planId) ∧
    db'.anchors = db.anchors ∧ db'.events = db.events

theorem sameHistory_refl (db : Db) : SameHistory db db := ⟨fun p hp => ⟨p, hp, rfl, rfl⟩, rfl, rfl⟩

theorem SameHistory.updatePhases (h : SameHistory db db') {selected : PhaseRow → Bool}
    {set : PhaseRow → PhaseRow} (hset : ∀ p, (set p).id = p.id ∧ (set p).planId = p.planId) :
    SameHistory db (db'.updatePhases selected set) := by
  refine ⟨fun p hp => ?_, h.2⟩
  obtain ⟨q, hq, hkey⟩ := h.1 p hp
  refine ⟨_, List.mem_map_of_mem hq, ?_⟩
  split
  · exact ⟨(hset q).1.trans hkey.1, (hset q).2.trans hkey.2⟩
  · exact hkey

theorem sameHistory_movePhase {oldPosition requestedPosition : Int} :
    SameHistory db (Plans.movePhase db now planId phaseId oldPosition requestedPosition) := by
  unfold Plans.movePhase
  dsimp only
  split
  · exact sameHistory_refl db
  · refine SameHistory.updatePhases ?_ fun p => ⟨rfl, rfl⟩
    split
    · exact (sameHistory_refl db).updatePhases fun p => ⟨rfl, rfl⟩
    · exact (sameHistory_refl db).updatePhases fun p => ⟨rfl, rfl⟩

theorem updatePhase (h : Logged clock db) (hpast : now ≤ clock) {input : UpdatePhaseInput}
    (horder : ¬ db.anchored phaseId → ∀ e ∈ db.events, e.records phaseId → e.createdAt ≤ now) :
    Yields (updatePhase db now planId phaseId input actor) (Logged clock) := by
  unfold Plans.updatePhase
  refine .skip fun _ => .skip fun _ => .bind yields_phase fun current hcurrent => ?_
  refine .skip fun title => .skip fun description => .skip fun status => .skip fun statusNote => ?_
  refine .skip fun size => .ok ?_
  -- The phase may move first, which keeps its key, its status and every event.
  have hboth : Logged clock (input.position.elim db fun position =>
      Plans.movePhase db now planId phaseId current.position position) ∧
      SameHistory db (input.position.elim db fun position =>
        Plans.movePhase db now planId phaseId current.position position) := by
    cases input.position with
    | none => exact ⟨h, sameHistory_refl db⟩
    | some position => exact ⟨h.movePhase, sameHistory_movePhase⟩
  generalize input.position.elim db (fun position =>
    Plans.movePhase db now planId phaseId current.position position) = moved at hboth ⊢
  obtain ⟨hmoved, hkeys, hanchors, hevents⟩ := hboth
  have hmem : ∃ p ∈ moved.phases, p.id = phaseId ∧ p.planId = planId := by
    obtain ⟨p, hp, hkey⟩ := hkeys current hcurrent.1
    exact ⟨p, hp, hkey.1.trans hcurrent.2.1, hkey.2.trans hcurrent.2.2⟩
  have hselected : ∀ p ∈ moved.phases,
      decide (p.id = phaseId ∧ p.planId = planId) ↔ p.id = phaseId := by
    intro p hp
    obtain ⟨q, hq, hqid, hqplan⟩ := hmem
    constructor
    · intro hboth
      exact (of_decide_eq_true hboth).1
    · intro hid
      have hpq : p = q := List.inj_on_of_nodup_map (List.pairwise_map.mpr hmoved.phaseIds) hp hq
        (hid.trans hqid.symm)
      exact decide_eq_true ⟨hid, hpq ▸ hqplan⟩
  have hbefore : ¬ moved.anchored phaseId → ∀ e ∈ moved.events, e.records phaseId →
      e.createdAt ≤ now := by
    unfold Db.anchored
    rw [hanchors, hevents]
    exact horder
  have htype : (if status = current.status then EventType.phaseUpdated
      else EventType.phaseStatusChanged).isStatus := by
    split <;> rfl
  have hset : Logged clock (Plans.insertEvent
      (moved.updatePhases (fun p => decide (p.id = phaseId ∧ p.planId = planId)) fun p =>
        { p.setStatus status now with
          title := title
          description := description
          statusNote := statusNote
          size := size })
      now planId (some phaseId) _ actor (some current.status.text) (some status.text)
      statusNote) :=
    hmoved.setStatus hpast status htype hmem hselected (fun p => ⟨rfl, rfl, rfl, rfl⟩) hbefore
  exact hset.of_eq rfl rfl rfl

theorem closes_of_validate {current : PlanRow} {input : UpdatePlanInput} {status : PlanStatus}
    (hcurrent : db.plan planId = some current)
    (hstatus : validatePlanStatus (input.status.getD current.status.text) = .ok status) :
    db.closes planId input = !status.isOpen := by
  unfold Db.closes
  rw [hcurrent, Option.any_some, hstatus]

theorem update (h : Logged clock db) (hpast : now ≤ clock) {input : UpdatePlanInput}
    (horder : input.skipRemaining → db.closes planId input → ∀ phase ∈ db.unfinished planId,
      ¬ db.anchored phase.id → ∀ e ∈ db.events, e.records phase.id → e.createdAt ≤ now) :
    Yields (update ptys db now planId input actor) (Logged clock) := by
  unfold Plans.update
  have hplan : Yields ((db.plan planId).elim
      (.error ("plan not found: " ++ uuidText planId)) .ok) fun p => db.plan planId = some p := by
    intro p hp
    cases hfind : db.plan planId with
    | none =>
        rw [hfind] at hp
        cases hp
    | some q =>
        rw [hfind] at hp
        exact congrArg some (Except.ok.inj hp)
  refine .skip fun _ => .bind hplan fun current hcurrent => ?_
  refine .skip fun title => .skip fun summary => .skip fun guidance => ?_
  refine .bind (P := fun status => validatePlanStatus (input.status.getD current.status.text) =
    .ok status) (fun status hstatus => hstatus) fun status hstatus => ?_
  refine .skip fun note => .require fun _ => .require fun _ => .require fun _ => ?_
  have hcloses := closes_of_validate hcurrent hstatus
  have hskipped : Logged clock (if !status.isOpen && input.skipRemaining then
      Plans.skipRemainingPhases db now planId actor note else db) := by
    split
    · rename_i hboth
      rw [Bool.and_eq_true] at hboth
      exact h.skipRemainingPhases hpast (horder hboth.2 (hcloses.trans hboth.1))
    · exact h
  have hlogged : ∀ eventType (set : PlanRow → PlanRow), Logged clock (Plans.insertEvent
      (Plans.recordChange ((if !status.isOpen && input.skipRemaining then
        Plans.skipRemainingPhases db now planId actor note else db).updatePlan planId set) now
        planId actor (some current.guidance) guidance note) now planId none eventType actor
      (some current.status.text) (some status.text) note) := by
    intro eventType set
    refine Logged.insertEvent (Logged.recordChange ?_ hpast) hpast (.inl rfl)
    exact hskipped.of_eq rfl rfl rfl
  exact .ite (fun _ => .ok (hlogged _ _)) fun _ => (hlogged _ _).closeBranchIntoParent hpast

end Logged

/-! ## Every run -/

theorem logged_preserved (parseUuid : String → Option Uuid) :
    Preserved (planStep parseUuid) StartsInOrder fun s => Logged s.clock s.db := by
  intro s call s' h hok hstep
  unfold planStep at hstep
  split at hstep
  swap
  · cases hstep
  rename_i hclock
  have h : Logged call.lockedAt s.db := h.tick hclock.1
  have hpast : call.startedAt ≤ call.lockedAt := hclock.2
  split at hstep
  swap
  · cases hstep
    exact h
  rename_i db hrun
  cases hstep
  change Logged call.lockedAt db
  have hkeeps : Yields (call.run parseUuid s.db) (Logged call.lockedAt) := by
    unfold StartsInOrder at hok
    unfold Call.run
    split
    · exact h.create hpast
    · exact h.branch hpast
    · rename_i planId input hoperation
      rw [hoperation] at hok
      refine h.update hpast fun hskip hcloses phase hphase hleaf => ?_
      refine hok phase.id ?_ hleaf
      simp only [Operation.sets, hskip, hcloses, Bool.and_self, if_true]
      exact List.mem_map_of_mem hphase
    · exact h.addPhase hpast
    · rename_i planId phaseId input hoperation
      rw [hoperation] at hok
      exact h.updatePhase hpast (hok phaseId (List.mem_singleton_self _))
    · exact h.attach hpast
    · exact h.detach hpast
  exact hkeeps db hrun

end Sulion.Plans
