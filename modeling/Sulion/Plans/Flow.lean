import Sulion.Plans.History

set_option autoImplicit false

/-! # Flow metrics replayed from the history

The cumulative flow of the metrics is computed from the events, ordered by date and id, and not
from the stored statuses. `newestDay_counts_stored` is when the two agree: transactions that set
the status of one phase start in the order of their locks. `lateCommit_replayed_first` is a run
where they do not.
-/

namespace Sulion.Plans

open Transition

/-! ## The replay -/

def sizeWeight : Option PhaseSize → Nat
  | some .m => 2
  | some .l => 3
  | some .s | none => 1

/-- `ORDER BY created_at, id`. -/
def PlanEvent.before (e e' : PlanEvent) : Bool :=
  decide (e.createdAt < e'.createdAt ∨ e.createdAt = e'.createdAt ∧ e.id ≤ e'.id)

/-- The query for events of the tracked plans. -/
def Db.flowEvents (db : Db) (planIds : List Uuid) : List PlanEvent :=
  (db.events.filter fun e => decide (e.planId ∈ planIds) && e.phaseId.isSome).insertionSort
    fun e e' => e.before e'

/-- `leaf_phases` of the phases of the tracked plans. -/
def Db.leafPhases (db : Db) (planIds : List Uuid) : List PhaseRow :=
  (db.phases.filter fun p => decide (p.planId ∈ planIds)).filter fun p => !db.anchored p.id

/-- The histories of phases, by the phase. -/
abbrev Transitions := Uuid → Option (List (Timestamp × String))

/-- `get_mut(&phase_id)` and `push`. -/
def pushStatus (transitions : Transitions) (e : PlanEvent) : Transitions :=
  match e.phaseId, e.toStatus with
  | some phaseId, some toStatus =>
      if e.eventType.isStatus then
        match transitions phaseId with
        | some history =>
            Function.update transitions phaseId (some (history ++ [(e.createdAt, toStatus)]))
        | none => transitions
      else transitions
  | _, _ => transitions

/-- A phase starts as pending at its creation. -/
def seedPhase (transitions : Transitions) (phase : PhaseRow) : Transitions :=
  Function.update transitions phase.id (some [(phase.createdAt, "pending")])

def phaseTransitions (phases : List PhaseRow) (events : List PlanEvent) : Transitions :=
  events.foldl pushStatus (phases.foldl seedPhase fun _ => none)

/-- The loop of `status_at`. -/
def statusFrom (at_ : Timestamp) : Option String → List (Timestamp × String) → Option String
  | status, [] => status
  | status, (ts, next) :: rest => if at_ < ts then status else statusFrom at_ (some next) rest

/-- Status of a phase as of a time, replayed from its history. -/
def statusAt (transitions : List (Timestamp × String)) (at_ : Timestamp) : Option String :=
  statusFrom at_ none transitions

/-- `DAILY_WINDOW_DAYS`. -/
def dailyWindowDays : Nat := 14

def dailyWindow (now : Timestamp) : List Day :=
  (List.range dailyWindowDays).reverse.map fun back => now.dateNaive - back

/-- End of the day, clamped to now. -/
def dayEnd (day : Day) (now : Timestamp) : Timestamp := min ((day + 1) * 86400000000) now

structure CfdDay where
  day : Day
  pending : Nat := 0
  inProgress : Nat := 0
  blocked : Nat := 0
  completed : Nat := 0
  skipped : Nat := 0
  deriving DecidableEq, Repr

def CfdDay.add (bucket : CfdDay) (status : String) (weight : Nat) : CfdDay :=
  match status with
  | "pending" => { bucket with pending := bucket.pending + weight }
  | "in_progress" => { bucket with inProgress := bucket.inProgress + weight }
  | "blocked" => { bucket with blocked := bucket.blocked + weight }
  | "completed" => { bucket with completed := bucket.completed + weight }
  | "skipped" => { bucket with skipped := bucket.skipped + weight }
  | _ => bucket

/-- One turn of the loop over the phases. -/
def countPhase (transitions : Transitions) (at_ : Timestamp) (bucket : CfdDay)
    (phase : PhaseRow) : CfdDay :=
  match (transitions phase.id).bind fun history => statusAt history at_ with
  | some status => bucket.add status (sizeWeight phase.size)
  | none => bucket

def cumulativeFlow (phases : List PhaseRow) (transitions : Transitions) (days : List Day)
    (now : Timestamp) : List CfdDay :=
  days.map fun day => phases.foldl (countPhase transitions (dayEnd day now)) { day := day }

/-- `cfd` of `flow_metrics`, for the tracked plans. -/
def Db.cfd (db : Db) (planIds : List Uuid) (now : Timestamp) : List CfdDay :=
  let phases := db.leafPhases planIds
  cumulativeFlow phases (phaseTransitions phases (db.flowEvents planIds)) (dailyWindow now) now

/-! ## What the replay gives -/

variable {clock now : Timestamp} {db : Db} {planIds : List Uuid} {transitions : Transitions}
  {phaseId : Uuid}

theorem statusEvents_cons (e : PlanEvent) (events : List PlanEvent) :
    statusEvents phaseId (e :: events) =
      statusEvents phaseId [e] ++ statusEvents phaseId events := by
  unfold statusEvents
  rw [← List.filterMap_append, ← List.filter_append]
  rfl

theorem pushStatus_lookup {history : List (Timestamp × String)} (e : PlanEvent)
    (h : transitions phaseId = some history) :
    pushStatus transitions e phaseId = some (history ++ statusEvents phaseId [e]) := by
  unfold pushStatus statusEvents
  cases hphase : e.phaseId with
  | none => simp [PlanEvent.records, hphase, h]
  | some id =>
      cases hto : e.toStatus with
      | none =>
          by_cases hrec : e.records phaseId <;> simp [hrec, hto, h]
      | some toStatus =>
          by_cases hstatus : e.eventType.isStatus
          · by_cases hid : id = phaseId
            · subst hid
              simp [PlanEvent.records, hphase, hstatus, hto, h]
            · have hne : phaseId ≠ id := fun heq => hid heq.symm
              have hnot : e.records phaseId = false := by simp [PlanEvent.records, hphase, hid]
              simp only [hstatus, if_true, hnot, List.filter_cons, Bool.false_eq_true, if_false,
                List.filter_nil, List.filterMap_nil, List.append_nil]
              cases transitions id with
              | none => exact h
              | some other => rw [← h]; exact Function.update_of_ne hne _ _
          · simp [PlanEvent.records, hstatus, h]

theorem foldl_pushStatus_lookup {history : List (Timestamp × String)} (events : List PlanEvent)
    (h : transitions phaseId = some history) :
    events.foldl pushStatus transitions phaseId = some
      (history ++ statusEvents phaseId events) := by
  induction events generalizing transitions history with
  | nil => simpa [statusEvents] using h
  | cons e events ih =>
      rw [List.foldl_cons, ih (pushStatus_lookup e h), statusEvents_cons e events,
        List.append_assoc]

theorem seeded_lookup {phases : List PhaseRow} {p : PhaseRow}
    (hids : phases.Pairwise fun p q => p.id ≠ q.id) (hp : p ∈ phases) (m : Transitions) :
    phases.foldl seedPhase m p.id = some [(p.createdAt, "pending")] := by
  -- The seeds of the later phases are under other ids.
  have hother : ∀ (rest : List PhaseRow) (m : Transitions), (∀ q ∈ rest, q.id ≠ p.id) →
      rest.foldl seedPhase m p.id = m p.id := by
    intro rest
    induction rest with
    | nil => exact fun _ _ => rfl
    | cons q rest ih =>
        intro m hrest
        rw [List.foldl_cons, ih _ fun r hr => hrest r (List.mem_cons_of_mem _ hr)]
        exact Function.update_of_ne (hrest q (List.mem_cons_self ..)).symm _ _
  induction phases generalizing m with
  | nil => cases hp
  | cons q rest ih =>
      rw [List.pairwise_cons] at hids
      rw [List.foldl_cons]
      rcases List.mem_cons.mp hp with rfl | hp
      · rw [hother _ _ fun r hr => (hids.1 r hr).symm]
        exact Function.update_self _ _ _
      · exact ih hids.2 hp _

/-- The history of a phase: pending at its creation, then its dated statuses. -/
theorem phaseTransitions_lookup {phases : List PhaseRow} {events : List PlanEvent} {p : PhaseRow}
    (hids : phases.Pairwise fun p q => p.id ≠ q.id) (hp : p ∈ phases) :
    phaseTransitions phases events p.id =
      some ((p.createdAt, "pending") :: statusEvents p.id events) :=
  foldl_pushStatus_lookup events (seeded_lookup hids hp _)

/-- A history that is over gives its last status. -/
theorem statusFrom_of_past {status : Option String} {history : List (Timestamp × String)}
    (h : ∀ entry ∈ history, entry.1 ≤ now) :
    statusFrom now status history = (history.getLast?.map (·.2)).or status := by
  induction history generalizing status with
  | nil => rfl
  | cons entry rest ih =>
      have hentry : ¬ now < entry.1 := not_lt.mpr (h entry (List.mem_cons_self ..))
      rw [statusFrom, if_neg hentry, ih fun e he => h e (List.mem_cons_of_mem _ he)]
      cases hrest : rest.getLast? with
      | none =>
          rw [List.getLast?_eq_none_iff] at hrest
          rw [hrest]
          rfl
      | some e => rw [List.getLast?_cons, hrest]; rfl

theorem mem_leafPhases {p : PhaseRow} :
    p ∈ db.leafPhases planIds ↔ (p ∈ db.phases ∧ p.planId ∈ planIds) ∧ ¬ db.anchored p.id := by
  unfold Db.leafPhases
  simp only [List.mem_filter, decide_eq_true_eq, Bool.not_eq_true', Bool.not_eq_true]

theorem before_iff {e e' : PlanEvent} : e.before e' ↔
    e.createdAt < e'.createdAt ∨ e.createdAt = e'.createdAt ∧ e.id ≤ e'.id := decide_eq_true_iff

instance : IsTrans PlanEvent fun e e' => e.before e' where
  trans a b c hab hbc := by
    rw [before_iff] at hab hbc ⊢
    unfold Timestamp at *
    omega

instance : Std.Total fun e e' : PlanEvent => (e.before e' : Prop) where
  total a b := by
    rw [before_iff, before_iff]
    unfold Timestamp at *
    omega

/-- **The events of a leaf phase are replayed in the order they were inserted.** -/
theorem statusEvents_flowEvents (h : Logged clock db) {p : PhaseRow}
    (hp : p ∈ db.leafPhases planIds) :
    statusEvents p.id (db.flowEvents planIds) = statusEvents p.id db.events := by
  obtain ⟨⟨hphase, hplan⟩, hleaf⟩ := mem_leafPhases.mp hp
  unfold statusEvents
  congr 1
  have hselect : (db.events.filter fun e => decide (e.planId ∈ planIds) && e.phaseId.isSome).filter
      (·.records p.id) = db.events.filter (·.records p.id) := by
    rw [List.filter_filter]
    refine List.filter_congr fun e he => ?_
    by_cases hrec : e.records p.id
    · have hid : e.phaseId = some p.id := by
        unfold PlanEvent.records at hrec
        rw [Bool.and_eq_true] at hrec
        exact of_decide_eq_true hrec.1
      simp [hrec, hid, h.planOf p hphase hleaf e he hrec, hplan]
    · simp [hrec]
  have hperm : ((db.flowEvents planIds).filter (·.records p.id)).Perm
      (db.events.filter (·.records p.id)) := by
    rw [← hselect]
    exact (List.perm_insertionSort _ _).filter _
  have hsorted : ((db.flowEvents planIds).filter (·.records p.id)).Pairwise
      fun e e' => e.before e' := by
    exact (List.pairwise_insertionSort _ _).filter _
  have hstored : (db.events.filter (·.records p.id)).Pairwise fun e e' => e.before e' := by
    have hids := h.eventIds.filter (·.records p.id)
    refine (hids.and (h.inOrder p hphase hleaf)).imp ?_
    rintro e e' ⟨hid, hdate⟩
    rw [before_iff]
    rcases lt_or_eq_of_le hdate with hlt | heq
    · exact .inl hlt
    · exact .inr ⟨heq, hid.le⟩
  refine hperm.eq_of_pairwise ?_ hsorted hstored
  intro e e' he he' hee' he'e
  rw [before_iff] at hee' he'e
  have hid : e.id = e'.id := by
    unfold Timestamp at *
    omega
  have hmem : e ∈ db.events := (List.mem_filter.mp (hperm.subset he)).1
  exact List.inj_on_of_nodup_map
    (List.pairwise_map.mpr (h.eventIds.imp fun {a b} hlt => hlt.ne)) hmem
    (List.mem_filter.mp he').1 hid

/-! ## The newest day -/

/-- The weight of the phases that are stored with a status. -/
def weightOf (phases : List PhaseRow) (status : PhaseStatus) : Nat :=
  ((phases.filter fun p => decide (p.status = status)).map fun p => sizeWeight p.size).sum

/-- A day with the phases counted under their stored statuses. -/
def storedDay (phases : List PhaseRow) (day : Day) : CfdDay :=
  ⟨day, weightOf phases .pending, weightOf phases .inProgress, weightOf phases .blocked,
    weightOf phases .completed, weightOf phases .skipped⟩

theorem foldl_countPhase (phases : List PhaseRow) (at_ : Timestamp)
    (h : ∀ p ∈ phases, ((transitions p.id).bind fun history => statusAt history at_) =
      some p.status.text) (bucket : CfdDay) :
    phases.foldl (countPhase transitions at_) bucket =
      ⟨bucket.day, bucket.pending + weightOf phases .pending,
        bucket.inProgress + weightOf phases .inProgress, bucket.blocked + weightOf phases .blocked,
        bucket.completed + weightOf phases .completed,
        bucket.skipped + weightOf phases .skipped⟩ := by
  induction phases generalizing bucket with
  | nil => rfl
  | cons p phases ih =>
      rw [List.foldl_cons, ih fun q hq => h q (List.mem_cons_of_mem _ hq)]
      have hcount : countPhase transitions at_ bucket p =
          bucket.add p.status.text (sizeWeight p.size) := by
        unfold countPhase
        rw [h p (List.mem_cons_self ..)]
      rw [hcount]
      unfold weightOf
      cases hstatus : p.status <;>
        simp [CfdDay.add, PhaseStatus.text, hstatus, Nat.add_assoc]

theorem dayEnd_today (now : Timestamp) : dayEnd now.dateNaive now = now := by
  unfold dayEnd Timestamp.dateNaive
  apply min_eq_right
  unfold Timestamp at *
  omega

/-- **The history replays to the plan.** In every run whose transactions that set the status of
one phase start in the order of their locks, and for every set of plans: the last status of each
leaf phase in the replayed history is the stored one, and the newest day counts the weight of each
leaf phase under its stored status. -/
theorem newestDay_counts_stored (parseUuid : String → Option Uuid) (clock : Timestamp) (s : Store)
    (hrun : Run (planStep parseUuid) StartsInOrder (.new clock) s) (planIds : List Uuid) :
    (∀ p ∈ s.db.leafPhases planIds,
      ((phaseTransitions (s.db.leafPhases planIds) (s.db.flowEvents planIds) p.id).bind
        fun history => history.getLast?.map (·.2)) = some p.status.text) ∧
    ∀ now, s.clock ≤ now → (s.db.cfd planIds now).getLast? =
      some (storedDay (s.db.leafPhases planIds) now.dateNaive) := by
  have h : Logged s.clock s.db :=
    hrun.invariant (I := fun s => Logged s.clock s.db) (logged_preserved parseUuid) (.empty clock)
  have hids : (s.db.leafPhases planIds).Pairwise fun p q => p.id ≠ q.id :=
    (h.phaseIds.filter _).filter _
  have hlookup : ∀ p ∈ s.db.leafPhases planIds,
      phaseTransitions (s.db.leafPhases planIds) (s.db.flowEvents planIds) p.id =
        some ((p.createdAt, "pending") :: statusEvents p.id s.db.events) := fun p hp => by
    rw [phaseTransitions_lookup hids hp, statusEvents_flowEvents h hp]
  have hlast : ∀ p ∈ s.db.leafPhases planIds,
      (((p.createdAt, "pending") :: statusEvents p.id s.db.events).getLast?.map (·.2)) =
        some p.status.text := by
    intro p hp
    obtain ⟨⟨hphase, _⟩, hleaf⟩ := mem_leafPhases.mp hp
    have hstored := h.last p hphase hleaf
    cases hend : (statusEvents p.id s.db.events).getLast? with
    | none =>
        rw [hend] at hstored
        cases hstored
    | some entry =>
        rw [hend] at hstored
        rw [List.getLast?_cons, hend]
        exact hstored
  constructor
  · intro p hp
    rw [hlookup p hp]
    exact hlast p hp
  · intro now hnow
    have hpast : ∀ p ∈ s.db.leafPhases planIds,
        ∀ entry ∈ (p.createdAt, "pending") :: statusEvents p.id s.db.events, entry.1 ≤ now := by
      intro p hp entry hentry
      rcases List.mem_cons.mp hentry with rfl | hentry
      · exact (h.phasesPast p (mem_leafPhases.mp hp).1.1).trans hnow
      · obtain ⟨e, he, hdate⟩ := List.mem_filterMap.mp hentry
        obtain ⟨status, _, rfl⟩ := Option.map_eq_some_iff.mp hdate
        exact (h.eventsPast e (List.mem_filter.mp he).1).trans hnow
    have hstatus : ∀ p ∈ s.db.leafPhases planIds,
        ((phaseTransitions (s.db.leafPhases planIds) (s.db.flowEvents planIds) p.id).bind
          fun history => statusAt history now) = some p.status.text := by
      intro p hp
      rw [hlookup p hp, Option.bind_some]
      unfold statusAt
      rw [statusFrom_of_past (hpast p hp), hlast p hp]
      rfl
    have hdays : (dailyWindow now).getLast? = some now.dateNaive := by
      unfold dailyWindow dailyWindowDays
      simp [List.range_succ]
    unfold Db.cfd cumulativeFlow
    rw [List.getLast?_map, hdays, Option.map_some, dayEnd_today, foldl_countPhase _ _ hstatus]
    simp [storedDay]

/-! ## A transaction that waits for its lock -/

/-- A call of the user that starts at one time and has its locks at another. -/
def waitingCall (startedAt lockedAt : Timestamp) (operation : Operation) : Call :=
  { sampleCall startedAt 0 operation with lockedAt := lockedAt }

/-- A transaction that starts when the one before it is over. -/
def Serial (s : Store) (call : Call) : Prop := s.clock ≤ call.startedAt

instance (s : Store) (call : Call) : Decidable (Serial s call) :=
  inferInstanceAs (Decidable (s.clock ≤ call.startedAt))

/-- Transactions that do not overlap start in order. -/
theorem run_of_serial {parseUuid : String → Option Uuid} {s t : Store} (h : Logged s.clock s.db)
    (hrun : Run (planStep parseUuid) Serial s t) : Run (planStep parseUuid) StartsInOrder s t := by
  have hboth : Run (planStep parseUuid) StartsInOrder s t ∧ Logged t.clock t.db := by
    induction hrun with
    | refl => exact ⟨.refl _, h⟩
    | snoc _ hserial hstep ih =>
        have horder : StartsInOrder _ _ := fun _ _ _ e he _ => (ih.2.eventsPast e he).trans hserial
        exact ⟨ih.1.snoc horder hstep, logged_preserved parseUuid _ _ _ ih.2 horder hstep⟩
  exact hboth.1

/-- Two calls set the status of phase `2`, one after the other. -/
def inTurn : List Call :=
  branched.take 1 ++ [waitingCall 5 5 (.updatePhase 1 2 { status := some "blocked" }),
    waitingCall 6 7 (.updatePhase 1 2 { status := some "completed" })]

theorem newestDay_counts_stored_inTurn :
    ∃ s, runList (restrict (planStep fun _ => none) Serial) (.new 0) inTurn = some s ∧
      s.clock ≤ 8 ∧ (s.db.cfd [1] 8).getLast? = some (storedDay (s.db.leafPhases [1]) 0) := by
  have hclock : ∃ s ∈ runList (restrict (planStep fun _ => none) Serial) (.new 0) inTurn,
      s.clock ≤ 8 := by decide +kernel
  obtain ⟨s, hs, hle⟩ := hclock
  have hrun := run_of_serial (.empty 0) (.of_restrict _ hs)
  exact ⟨s, hs, hle, (newestDay_counts_stored _ 0 s hrun [1]).2 8 hle⟩

/-- The call that started first has the lock last. -/
def outOfTurn : List Call :=
  branched.take 1 ++ [waitingCall 6 6 (.updatePhase 1 2 { status := some "completed" }),
    waitingCall 5 7 (.updatePhase 1 2 { status := some "in_progress" })]

theorem lateCommit_replayed_first :
    ∃ s, Run (planStep fun _ => none) anyStep (.new 0) s ∧
      ∃ p ∈ s.db.leafPhases [1],
        ((phaseTransitions (s.db.leafPhases [1]) (s.db.flowEvents [1]) p.id).bind
          fun history => history.getLast?.map (·.2)) ≠ some p.status.text := by
  have hlast : ∃ s ∈ runList (planStep fun _ => none) (.new 0) outOfTurn,
      ∃ p ∈ s.db.leafPhases [1],
        ((phaseTransitions (s.db.leafPhases [1]) (s.db.flowEvents [1]) p.id).bind
          fun history => history.getLast?.map (·.2)) ≠ some p.status.text := by decide +kernel
  obtain ⟨s, hs, hp⟩ := hlast
  exact ⟨s, .of_runList _ hs, hp⟩

end Sulion.Plans
