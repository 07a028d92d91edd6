import Sulion.Lib.Transition

set_option autoImplicit false

/-! # One build for the requests that wait for it

`CoalescedSnapshot` of `api/app_state_routes.rs`. A call loads the number of completed builds when
it arrives, waits for the lock, and either takes the stored snapshot or builds one under the lock.
A build reads the state at several moments, and stands here for the list of its reads; the state
changes at any time, and a build may fail and a call may be dropped.
-/

namespace Sulion.Api

open Transition

abbrev CallId := Nat

/-- A read of a build: its moment, and the state it saw. -/
structure Read (σ : Type) where
  moment : Nat
  seen : σ
  deriving DecidableEq, Repr

/-- `CachedSnapshot`; its value is what its build has read. -/
structure CachedSnapshot (σ : Type) where
  completedBuilds : Nat
  value : List (Read σ)
  deriving DecidableEq, Repr

/-- Where a call of `get_or_try_init` is. -/
inductive Stage (σ : Type)
  | absent
  /-- It has loaded the number of completed builds, and waits for the lock. -/
  | waiting (arrivedAfter : Nat)
  /-- It has the lock, and looks at the stored snapshot next. -/
  | locked (arrivedAfter : Nat)
  | building (reads : List (Read σ))
  /-- Its build is counted; it stores the snapshot next. -/
  | counted (completedBuilds : Nat) (value : List (Read σ))
  | returned (value : List (Read σ))
  /-- Its build has failed, or the call was dropped. -/
  | failed
  deriving DecidableEq, Repr

/-- The call has the lock. -/
def Stage.holds {σ : Type} : Stage σ → Bool
  | .locked _ | .building _ | .counted _ _ => true
  | _ => false

/-- The cache, its calls and the state they read. -/
structure Snapshots (σ : Type) where
  completedBuilds : Nat
  inner : Option (CachedSnapshot σ)
  /-- The call that has the lock. -/
  holder : Option CallId
  stage : CallId → Stage σ
  /-- The moment a call arrived. -/
  arrivedAt : CallId → Nat
  now : Nat
  state : σ

inductive Action (σ : Type)
  | mutate (state : σ)
  | arrive (i : CallId)
  | lock (i : CallId)
  | check (i : CallId)
  | read (i : CallId)
  /-- The build is complete. -/
  | count (i : CallId)
  | store (i : CallId)
  /-- The build fails. -/
  | fail (i : CallId)
  /-- The call is dropped while it waits. -/
  | drop (i : CallId)
  deriving DecidableEq, Repr

namespace Snapshots

variable {σ : Type}

def new (state : σ) : Snapshots σ :=
  { completedBuilds := 0, inner := none, holder := none, stage := fun _ => .absent,
    arrivedAt := fun _ => 0, now := 0, state := state }

def goTo (s : Snapshots σ) (i : CallId) (stage : Stage σ) : Snapshots σ :=
  { s with stage := Function.update s.stage i stage }

/-- The call ends and, if it has the lock, gives it back. -/
def leave (s : Snapshots σ) (i : CallId) (stage : Stage σ) : Snapshots σ :=
  { s.goTo i stage with holder := if s.holder = some i then none else s.holder }

/-- One step, before the clock moves on. -/
def act (s : Snapshots σ) : Action σ → Option (Snapshots σ)
  | .mutate state => some { s with state := state }
  | .arrive i =>
      match s.stage i with
      | .absent =>
          some { s.goTo i (.waiting s.completedBuilds) with
            arrivedAt := Function.update s.arrivedAt i s.now }
      | _ => none
  | .lock i =>
      match s.stage i, s.holder with
      | .waiting n, none => some { s.goTo i (.locked n) with holder := some i }
      | _, _ => none
  | .check i =>
      match s.stage i with
      | .locked arrivedAfter =>
          match s.inner with
          | some snapshot =>
              if snapshot.completedBuilds > arrivedAfter then
                some (s.leave i (.returned snapshot.value))
              else some (s.goTo i (.building []))
          | none => some (s.goTo i (.building []))
      | _ => none
  | .read i =>
      match s.stage i with
      | .building reads => some (s.goTo i (.building (reads ++ [⟨s.now, s.state⟩])))
      | _ => none
  | .count i =>
      match s.stage i with
      | .building reads =>
          some { s.goTo i (.counted (s.completedBuilds + 1) reads) with
            completedBuilds := s.completedBuilds + 1 }
      | _ => none
  | .store i =>
      match s.stage i with
      | .counted n value => some { s.leave i (.returned value) with inner := some ⟨n, value⟩ }
      | _ => none
  | .fail i =>
      match s.stage i with
      | .building _ => some (s.leave i .failed)
      | _ => none
  | .drop i =>
      match s.stage i with
      | .waiting _ | .building _ => some (s.leave i .failed)
      | _ => none

def step (s : Snapshots σ) (a : Action σ) : Option (Snapshots σ) :=
  (s.act a).map fun s' => { s' with now := s.now + 1 }

end Snapshots

/-! ## The property -/

variable {σ : Type}

/-- What a call was given was read after it had arrived. -/
def NotOlder (s : Snapshots σ) : Prop :=
  ∀ i value, s.stage i = .returned value → ∀ r ∈ value, s.arrivedAt i < r.moment

/-- A call is building. -/
def Building (s : Snapshots σ) (i : CallId) : Prop := ∃ reads, s.stage i = .building reads

def OneBuild (s : Snapshots σ) : Prop := ∀ i j, Building s i → Building s j → i = j

/-! ## The condition -/

/-- A build in progress has read nothing yet. -/
def NothingRead (s : Snapshots σ) : Prop :=
  ∀ i ∈ s.holder, match s.stage i with
    | .building reads => reads = []
    | _ => True

instance (s : Snapshots σ) : Decidable (NothingRead s) := by
  unfold NothingRead
  have (i : CallId) : Decidable (match s.stage i with
      | .building reads => reads = []
      | _ => True) := by
    split <;> infer_instance
  infer_instance

/-- A call arrives only while no build has read anything. -/
def ArrivesBeforeReads (s : Snapshots σ) : Action σ → Prop
  | .arrive _ => NothingRead s
  | _ => True

instance (s : Snapshots σ) (a : Action σ) : Decidable (ArrivesBeforeReads s a) := by
  unfold ArrivesBeforeReads
  split <;> infer_instance

/-! ## The run -/

/-- The lock is with the call that is between taking it and giving it back, and what a build has
read it has read before now. -/
structure Held (s : Snapshots σ) : Prop where
  holder : ∀ i, s.holder = some i ↔ (s.stage i).holds = true
  read : ∀ i reads, s.stage i = .building reads → ∀ r ∈ reads, r.moment < s.now

/-- Every waiting call has arrived before the reads of the build that it may be given. -/
structure Fresh (s : Snapshots σ) : Prop where
  held : Held s
  inner : ∀ snapshot, s.inner = some snapshot → snapshot.completedBuilds ≤ s.completedBuilds
  counted : ∀ i n value, s.stage i = .counted n value → n = s.completedBuilds
  arrived : ∀ i, s.stage i ≠ .absent → s.arrivedAt i < s.now
  waiting : ∀ i n, s.stage i = .waiting n ∨ s.stage i = .locked n → n ≤ s.completedBuilds ∧
    (∀ snapshot, s.inner = some snapshot → n < snapshot.completedBuilds →
      ∀ r ∈ snapshot.value, s.arrivedAt i < r.moment) ∧
    (∀ j reads, s.stage j = .building reads → ∀ r ∈ reads, s.arrivedAt i < r.moment) ∧
    ∀ j m value, s.stage j = .counted m value → n < m → ∀ r ∈ value, s.arrivedAt i < r.moment
  building : ∀ i reads, s.stage i = .building reads → ∀ r ∈ reads, s.arrivedAt i < r.moment
  built : ∀ i n value, s.stage i = .counted n value → ∀ r ∈ value, s.arrivedAt i < r.moment
  returned : NotOlder s

section Steps

variable {s s' t : Snapshots σ} {a : Action σ} {i : CallId}

theorem Held.step (h : Held s) (hstep : s.step a = some s') : Held s' := by
  obtain ⟨t, hact, rfl⟩ := Option.map_eq_some_iff.mp hstep
  cases h
  cases a
  all_goals
    simp only [Snapshots.act, Snapshots.goTo, Snapshots.leave] at hact
    repeat' split at hact
  all_goals cases hact
  all_goals
    constructor
    all_goals simp only [Function.update_apply]
    all_goals grind [Stage.holds]

theorem Fresh.arrive (h : Fresh s) (hok : NothingRead s)
    (hact : s.act (.arrive i) = some t) (ht : Held { t with now := s.now + 1 }) :
    Fresh { t with now := s.now + 1 } := by
  obtain ⟨⟨hholder, hread⟩, h1, h2, h3, h4, h5, h6, h7⟩ := h
  simp only [Snapshots.act, Snapshots.goTo] at hact
  split at hact
  · cases hact
    refine ⟨ht, ?_, ?_, ?_, ?_, ?_, ?_, ?_⟩
    all_goals clear ht
    all_goals simp only [NotOlder, Function.update_apply] at *
    all_goals grind [Stage.holds, NothingRead]
  · cases hact

/-- A call that moves on without touching the cache: its new stage carries nothing that it has not
carried before, but for a snapshot that is new enough for it. -/
theorem Fresh.moveOn {stage : Stage σ} {holder : Option CallId} (h : Fresh s)
    (hhere : s.stage i ≠ .absent)
    (hwait : ∀ n, stage = .waiting n ∨ stage = .locked n →
      s.stage i = .waiting n ∨ s.stage i = .locked n)
    (hbuild : ∀ reads, stage = .building reads → reads = [])
    (hcount : ∀ n value, stage ≠ .counted n value)
    (hreturn : ∀ value, stage = .returned value → ∀ r ∈ value, s.arrivedAt i < r.moment)
    (ht : Held { s.goTo i stage with holder := holder, now := s.now + 1 }) :
    Fresh { s.goTo i stage with holder := holder, now := s.now + 1 } := by
  obtain ⟨-, h1, h2, h3, h4, h5, h6, h7⟩ := h
  refine ⟨ht, h1, ?_, ?_, ?_, ?_, ?_, ?_⟩
  all_goals clear ht
  all_goals simp only [NotOlder, Snapshots.goTo, Function.update_apply] at *
  all_goals grind

theorem Fresh.lock (h : Fresh s)
    (hact : s.act (.lock i) = some t) (ht : Held { t with now := s.now + 1 }) :
    Fresh { t with now := s.now + 1 } := by
  simp only [Snapshots.act] at hact
  split at hact
  · rename_i n hstage hholder
    cases hact
    exact h.moveOn (by simp [hstage]) (fun m hm => .inl (by simpa [hstage] using hm)) nofun nofun
      nofun ht
  · cases hact

theorem Fresh.check (h : Fresh s)
    (hact : s.act (.check i) = some t) (ht : Held { t with now := s.now + 1 }) :
    Fresh { t with now := s.now + 1 } := by
  simp only [Snapshots.act] at hact
  split at hact
  · rename_i n hstage
    have hhere : s.stage i ≠ .absent := by simp [hstage]
    have hempty : ∀ reads : List (Read σ), Stage.building [] = .building reads → reads = [] := by
      intro reads hreads
      cases hreads
      rfl
    split at hact
    · rename_i snapshot hinner
      split at hact
      · rename_i hlater
        cases hact
        refine h.moveOn hhere nofun nofun nofun (fun value hvalue => ?_) ht
        cases hvalue
        exact (h.waiting i n (.inr hstage)).2.1 snapshot hinner hlater
      · cases hact
        exact h.moveOn hhere nofun hempty nofun nofun ht
    · cases hact
      exact h.moveOn hhere nofun hempty nofun nofun ht
  · cases hact

theorem Fresh.fail (h : Fresh s)
    (hact : s.act (.fail i) = some t) (ht : Held { t with now := s.now + 1 }) :
    Fresh { t with now := s.now + 1 } := by
  simp only [Snapshots.act] at hact
  split at hact
  · rename_i reads hstage
    cases hact
    exact h.moveOn (by simp [hstage]) nofun nofun nofun nofun ht
  · cases hact

theorem Fresh.drop (h : Fresh s)
    (hact : s.act (.drop i) = some t) (ht : Held { t with now := s.now + 1 }) :
    Fresh { t with now := s.now + 1 } := by
  simp only [Snapshots.act] at hact
  split at hact
  · rename_i n hstage
    cases hact
    exact h.moveOn (by simp [hstage]) nofun nofun nofun nofun ht
  · rename_i reads hstage
    cases hact
    exact h.moveOn (by simp [hstage]) nofun nofun nofun nofun ht
  · cases hact

theorem Fresh.read (h : Fresh s)
    (hact : s.act (.read i) = some t) (ht : Held { t with now := s.now + 1 }) :
    Fresh { t with now := s.now + 1 } := by
  obtain ⟨⟨hholder, hread⟩, h1, h2, h3, h4, h5, h6, h7⟩ := h
  simp only [Snapshots.act, Snapshots.goTo] at hact
  split at hact
  · cases hact
    refine ⟨ht, ?_, ?_, ?_, ?_, ?_, ?_, ?_⟩
    all_goals clear ht
    all_goals simp only [NotOlder, Function.update_apply] at *
    all_goals grind [Stage.holds]
  · cases hact

theorem Fresh.count (h : Fresh s)
    (hact : s.act (.count i) = some t) (ht : Held { t with now := s.now + 1 }) :
    Fresh { t with now := s.now + 1 } := by
  obtain ⟨⟨hholder, hread⟩, h1, h2, h3, h4, h5, h6, h7⟩ := h
  simp only [Snapshots.act, Snapshots.goTo] at hact
  split at hact
  · cases hact
    refine ⟨ht, ?_, ?_, ?_, ?_, ?_, ?_, ?_⟩
    all_goals clear ht
    all_goals simp only [NotOlder, Function.update_apply] at *
    all_goals grind [Stage.holds]
  · cases hact

theorem Fresh.store (h : Fresh s)
    (hact : s.act (.store i) = some t) (ht : Held { t with now := s.now + 1 }) :
    Fresh { t with now := s.now + 1 } := by
  obtain ⟨⟨hholder, hread⟩, h1, h2, h3, h4, h5, h6, h7⟩ := h
  simp only [Snapshots.act, Snapshots.goTo, Snapshots.leave] at hact
  split at hact
  · cases hact
    refine ⟨ht, ?_, ?_, ?_, ?_, ?_, ?_, ?_⟩
    all_goals clear ht
    all_goals simp only [NotOlder, Function.update_apply] at *
    all_goals grind [Stage.holds]
  · cases hact

theorem Fresh.step (h : Fresh s) (hok : ArrivesBeforeReads s a) (hstep : s.step a = some s') :
    Fresh s' := by
  have hheld := h.held.step hstep
  obtain ⟨t, hact, rfl⟩ := Option.map_eq_some_iff.mp hstep
  cases a with
  | mutate state =>
      cases hact
      obtain ⟨-, h1, h2, h3, h4, h5, h6, h7⟩ := h
      exact ⟨hheld, h1, h2, fun i hi => Nat.lt_succ_of_lt (h3 i hi), h4, h5, h6, h7⟩
  | arrive i => exact h.arrive hok hact hheld
  | lock i => exact h.lock hact hheld
  | check i => exact h.check hact hheld
  | read i => exact h.read hact hheld
  | count i => exact h.count hact hheld
  | store i => exact h.store hact hheld
  | fail i => exact h.fail hact hheld
  | drop i => exact h.drop hact hheld

end Steps

theorem Fresh.new (state : σ) : Fresh (Snapshots.new state) := by
  refine ⟨⟨?_, ?_⟩, ?_, ?_, ?_, ?_, ?_, ?_, ?_⟩
  all_goals simp [Snapshots.new, NotOlder, Stage.holds]

theorem Held.oneBuild {s : Snapshots σ} (h : Held s) : OneBuild s := by
  rintro i j ⟨reads, hi⟩ ⟨reads', hj⟩
  have hholder := (h.holder i).mpr (by simp [hi, Stage.holds])
  have hholder' := (h.holder j).mpr (by simp [hj, Stage.holds])
  exact Option.some.inj (hholder.symm.trans hholder')

/-- A call that arrives when the build in progress has read something can be given that build. -/
theorem Held.given_older {s : Snapshots σ} (h : Held s) (hread : ¬ NothingRead s) {i : CallId}
    (hi : s.stage i = .absent) : ∃ t, Run Snapshots.step anyStep s t ∧ ¬ NotOlder t := by
  obtain ⟨j, hj, reads, hstage, hne⟩ : ∃ j, s.holder = some j ∧
      ∃ reads, s.stage j = .building reads ∧ reads ≠ [] := by
    simp only [NothingRead, not_forall] at hread
    obtain ⟨j, hj, hread⟩ := hread
    refine ⟨j, hj, ?_⟩
    split at hread
    · exact ⟨_, ‹_›, hread⟩
    · exact absurd trivial hread
  have hij : i ≠ j := by
    rintro rfl
    rw [hi] at hstage
    cases hstage
  obtain ⟨r, hr⟩ := List.exists_mem_of_ne_nil reads hne
  have hr' := h.read j reads hstage r hr
  -- the build is completed and stored, and the call takes the lock and the snapshot
  have hrun : ∃ t, runList Snapshots.step s
      [.arrive i, .count j, .store j, .lock i, .check i] = some t ∧
      t.stage i = .returned reads ∧ t.arrivedAt i = s.now := by
    simp [runList, Snapshots.step, Snapshots.act, Snapshots.goTo, Snapshots.leave,
      hi, hj, hstage, hij, hij.symm]
  obtain ⟨t, ht, hgiven, harrived⟩ := hrun
  refine ⟨t, .of_runList _ ht, fun hfresh => ?_⟩
  have := hfresh i reads hgiven r hr
  omega

/-- **A call is given what was read after its arrival**, as long as calls arrive before the build
in progress has read anything; a call that arrives later can be given an older snapshot. There is
never more than one build. -/
theorem snapshots_not_older (state : σ) :
    (∀ t, Run Snapshots.step anyStep (.new state) t → OneBuild t) ∧
    (∀ t, Run Snapshots.step ArrivesBeforeReads (.new state) t → NotOlder t) ∧
    ∀ s i, Run Snapshots.step anyStep (.new state) s → ¬ NothingRead s → s.stage i = .absent →
      ∃ t, Run Snapshots.step anyStep s t ∧ ¬ NotOlder t := by
  have hheld : ∀ t, Run Snapshots.step anyStep (.new state) t → Held t := fun t hrun =>
    hrun.invariant (fun _ _ _ h _ hstep => h.step hstep) (Fresh.new state).held
  refine ⟨fun t hrun => (hheld t hrun).oneBuild, fun t hrun => ?_, fun s i hrun hread hi => ?_⟩
  · exact (hrun.invariant (fun _ _ _ h hok hstep => h.step hok hstep) (Fresh.new state)).returned
  · exact (hheld s hrun).given_older hread hi

/-- A build reads the state, the state changes, a call arrives and is given the build. -/
theorem older_snapshot_given : ∃ t : Snapshots Nat,
    Run Snapshots.step anyStep (.new 0) t ∧ t.arrivedAt 1 = 5 ∧ t.state = 1 ∧
    t.stage 1 = .returned [⟨3, 0⟩] ∧ ¬ NotOlder t := by
  have hrun : ∃ t, runList Snapshots.step (.new 0)
      [.arrive 0, .lock 0, .check 0, .read 0, .mutate 1, .arrive 1, .count 0, .store 0, .lock 1,
        .check 1] = some t ∧ t.arrivedAt 1 = 5 ∧ t.state = 1 ∧
      t.stage 1 = .returned [⟨3, 0⟩] := ⟨_, rfl, rfl, rfl, rfl⟩
  obtain ⟨t, ht, harrived, hstate, hgiven⟩ := hrun
  refine ⟨t, .of_runList _ ht, harrived, hstate, hgiven, fun hfresh => ?_⟩
  have := hfresh 1 _ hgiven ⟨3, 0⟩ (by simp)
  rw [harrived] at this
  exact absurd this (by decide)

/-- A call that arrives while the build has read nothing is given that build. -/
theorem snapshots_not_older_waiting : ∃ t : Snapshots Nat,
    t.stage 1 = .returned [⟨4, 0⟩] ∧ NotOlder t := by
  have hrun : ∃ t ∈ runList (restrict Snapshots.step ArrivesBeforeReads) (.new 0)
      [.arrive 0, .lock 0, .check 0, .arrive 1, .read 0, .count 0, .store 0, .lock 1, .check 1],
      t.stage 1 = .returned [⟨4, 0⟩] := by
    decide +kernel
  obtain ⟨t, ht, hgiven⟩ := hrun
  exact ⟨t, hgiven, (snapshots_not_older 0).2.1 t (.of_restrict _ ht)⟩

end Sulion.Api
