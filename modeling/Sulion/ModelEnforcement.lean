import Sulion.Activity
import Sulion.ModelSwitches
import Sulion.Pty.Records

set_option autoImplicit false

/-! # Enforcing the confirmed model

The control process interrupts the turn of a session whose record moved it to a model that its user
did not accept. It goes by the switch rows: each keeps from its record whether it is enforced, while
the observed and the confirmed model go on.

The file says how a session goes from record to record and from answer to answer, and when the rows
that are left to enforce tell the model the session is on (`enforcement_accurate`).
-/

namespace Sulion.ModelEnforcement

open Activity Ingest ModelSwitches Pty Rust Transition

/-! ## The state -/

/-- A row of `pty_sessions` with the state of its row in `session_activity_state`. -/
structure PtySession where
  id : Uuid
  /-- `current_session_uuid` is the session. -/
  current : Bool
  state : PtyState
  agentRuntimeState : RuntimeState
  activity : Option ActivityState

/-- A session, the switches with an `interrupted_at`, and the PTYs. -/
structure State where
  session : Session
  interrupted : List Int
  ptys : List PtySession

def State.new (ptys : List PtySession) : State := ⟨.new, [], ptys⟩

/-- A turn of the session is running. -/
def PtySession.isWorking (p : PtySession) : Bool :=
  p.current && p.state = .live && p.agentRuntimeState = .running && p.activity = some .working

/-- The switches of the session with their PTYs. -/
def pendingEnforcement (s : State) : List (Int × Uuid) :=
  ((s.session.switches.toList.filter fun sw =>
      sw.2.enforced && sw.2.acknowledgedAt.isNone && sw.1 ∉ s.interrupted).insertionSort
    fun a b => a.2.observedAt ≤ b.2.observedAt).flatMap fun sw =>
      (s.ptys.filter PtySession.isWorking).map fun p => (sw.1, p.id)

inductive Act
  /-- The record at `byteOffset` is stored and observed. -/
  | ingest (byteOffset : Int) (row : EventRow)
  | acknowledge (pty : Uuid) (byteOffset : Int) (adopt : Bool) (now : Timestamp)
  /-- `mark_interrupted`. -/
  | interrupt (byteOffset : Int)
  | activity (ptys : List PtySession)

def State.isCurrent (s : State) (pty : Uuid) : Bool := s.ptys.any fun p => p.id = pty && p.current

/-- Records come in byte order. -/
def step (source : TranscriptSource) (s : State) : Act → Option State
  | .ingest byteOffset row =>
      if s.session.events.toList.all fun e => e.1 < byteOffset then
        some { s with session := insertEvent source s.session byteOffset row }
      else none
  | .acknowledge pty byteOffset adopt now =>
      if s.isCurrent pty then
        some { s with session := acknowledge s.session byteOffset adopt now }
      else some s
  | .interrupt byteOffset => some { s with interrupted := byteOffset :: s.interrupted }
  | .activity ptys => some { s with ptys := ptys }

/-! ## What enforcement promises -/

/-- The switch at `byteOffset` is the last one. -/
def LastSwitch (s : Session) (byteOffset : Int) (sw : ModelSwitch) : Prop :=
  s.switches[byteOffset]? = some sw ∧
    ∀ (k : Int) (other : ModelSwitch), s.switches[k]? = some other → k ≤ byteOffset

/-- The switch onto the observed model is enforced, and it is open or the user dismissed it. -/
def Unaccepted (s : Session) : Prop :=
  ∃ (k : Int) (sw : ModelSwitch), LastSwitch s k sw ∧ s.observedModel = some sw.toModel ∧
    sw.enforced = true ∧ (sw.acknowledgedAt = none ∨ sw.adopted = some false)

structure Accurate (s : State) : Prop where
  pending : ∀ (k : Int) (pty : Uuid), (k, pty) ∈ pendingEnforcement s →
    ∃ sw, s.session.switches[k]? = some sw ∧ s.session.observedModel = some sw.toModel ∧
      s.session.confirmedModel ≠ some sw.toModel
  unaccepted : s.session.observedModel ≠ s.session.confirmedModel → Unaccepted s.session

/-- A turn may be running or not. -/
def AlwaysAccurate (s : State) : Prop := ∀ ptys, Accurate { s with ptys := ptys }

/-- The switch is enforced as soon as a turn is running. -/
structure Enforceable (s : State) (k : Int) (sw : ModelSwitch) : Prop where
  row : s.session.switches[k]? = some sw
  enforced : sw.enforced = true
  isOpen : sw.acknowledgedAt = none
  uninterrupted : k ∉ s.interrupted

/-- The record reports another model than the observed one. -/
def Moves (source : TranscriptSource) (s : Session) (byteOffset : Int) (row : EventRow) : Prop :=
  ∃ observed model, s.observedModel = some observed ∧ recordModel source row = some model ∧
    model ≠ observed ∧ ¬ Unreadable source (s.events.insert byteOffset row) byteOffset

/-- A record moves the model only when no switch is left to enforce. A switch is adopted only if it
is one onto the observed model, or if the one that is has been enforced and not adopted. -/
def InOrder (source : TranscriptSource) (s : State) : Act → Prop
  | .ingest byteOffset row =>
      Moves source s.session byteOffset row → ∀ k sw, ¬ Enforceable s k sw
  | .acknowledge pty byteOffset adopt _ =>
      ∀ sw, s.isCurrent pty = true → adopt = true → s.session.switches[byteOffset]? = some sw →
        sw.acknowledgedAt = none →
          s.session.observedModel = some sw.toModel ∨ Unaccepted s.session
  | .interrupt _ | .activity _ => True

/-- What a session's rows and baselines have to do with each other. -/
structure Rows (s : Session) : Prop where
  stored : ∀ (k : Int) (sw : ModelSwitch), s.switches[k]? = some sw →
    ∃ row, s.events[k]? = some row
  baseline : (s.observedModel = none ∧ s.confirmedModel = none ∧ s.switches = ∅) ∨
    ∃ observed confirmed, s.HasBaseline observed confirmed
  last : ∀ k sw, LastSwitch s k sw → s.observedModel = some sw.toModel

variable {source : TranscriptSource} {s s' : State} {a : Act}

/-! ## The rows that are left to enforce -/

theorem mem_pendingEnforcement {k : Int} {pty : Uuid} :
    (k, pty) ∈ pendingEnforcement s ↔
      (∃ sw, Enforceable s k sw) ∧ ∃ p ∈ s.ptys, p.isWorking = true ∧ p.id = pty := by
  simp only [pendingEnforcement, List.mem_flatMap, List.mem_insertionSort, List.mem_filter,
    List.mem_map, Prod.mk.injEq]
  constructor
  · rintro ⟨⟨k', sw⟩, ⟨hmem, hopen⟩, p, ⟨hp, hworking⟩, rfl, rfl⟩
    simp only [Bool.and_eq_true, Option.isNone_iff_eq_none, decide_eq_true_eq] at hopen
    exact ⟨⟨sw, Std.ExtTreeMap.mem_toList_iff_getElem?_eq_some.mp hmem, hopen.1.1, hopen.1.2,
      hopen.2⟩, p, hp, hworking, rfl⟩
  · rintro ⟨⟨sw, henf⟩, p, hp, hworking, rfl⟩
    refine ⟨(k, sw), ⟨Std.ExtTreeMap.mem_toList_iff_getElem?_eq_some.mpr henf.row, ?_⟩, p,
      ⟨hp, hworking⟩, rfl, rfl⟩
    simp [henf.enforced, henf.isOpen, henf.uninterrupted]

/-- A PTY in which a turn of the session is running. -/
def workingPty : PtySession := ⟨0, true, .live, .running, some .working⟩

/-- A turn may start at any time, so each switch that can be enforced counts. -/
theorem alwaysAccurate_iff :
    AlwaysAccurate s ↔
      (∀ k sw, Enforceable s k sw → s.session.observedModel = some sw.toModel ∧
          s.session.confirmedModel ≠ some sw.toModel) ∧
        (s.session.observedModel ≠ s.session.confirmedModel → Unaccepted s.session) := by
  constructor
  · intro h
    refine ⟨fun k sw henf => ?_, (h []).unaccepted⟩
    have hpending : (k, workingPty.id) ∈ pendingEnforcement { s with ptys := [workingPty] } :=
      mem_pendingEnforcement.mpr ⟨⟨sw, henf.row, henf.enforced, henf.isOpen, henf.uninterrupted⟩,
        workingPty, List.mem_singleton_self _, rfl, rfl⟩
    obtain ⟨sw', hrow, hmodels⟩ := (h [workingPty]).pending k _ hpending
    cases henf.row.symm.trans hrow
    exact hmodels
  · rintro ⟨henf, hunaccepted⟩ ptys
    refine ⟨fun k pty hpending => ?_, hunaccepted⟩
    obtain ⟨⟨sw, hsw⟩, -⟩ := mem_pendingEnforcement.mp hpending
    exact ⟨sw, hsw.row, henf k sw ⟨hsw.row, hsw.enforced, hsw.isOpen, hsw.uninterrupted⟩⟩

/-! ## An answer -/

/-- What an answer to the switch `sw` makes of the switch at `k`. -/
def answered (byteOffset : Int) (sw : ModelSwitch) (adopt : Bool) (now : Timestamp) (k : Int)
    (other : ModelSwitch) : ModelSwitch :=
  if k = byteOffset ∨ adopt ∧ other.toModel = sw.toModel ∧ other.acknowledgedAt = none then
    { other with acknowledgedAt := some now, adopted := some adopt }
  else other

section Answer

variable {t : Session} {byteOffset : Int} {sw : ModelSwitch} {adopt : Bool} {now : Timestamp}

theorem lookup_acknowledge (hrow : t.switches[byteOffset]? = some sw)
    (hopen : sw.acknowledgedAt = none) (k : Int) :
    (acknowledge t byteOffset adopt now).switches[k]? =
      t.switches[k]?.map (answered byteOffset sw adopt now k) := by
  have hclosed : (t.switches.insert byteOffset
      { sw with acknowledgedAt := some now, adopted := some adopt })[k]? =
        t.switches[k]?.map fun other => if k = byteOffset then
          { other with acknowledgedAt := some now, adopted := some adopt } else other := by
    rw [Table.lookup_insert]
    by_cases hk : byteOffset = k
    · subst hk
      simp [hrow]
    · simp [hk, Ne.symm hk]
  simp only [acknowledge, hrow, hopen, Option.isSome_none, Bool.false_eq_true, if_false]
  cases adopt with
  | false =>
      simp only [Bool.false_eq_true, if_false, hclosed]
      congr 1
      funext other
      simp [answered]
  | true =>
      simp only [if_true, Std.ExtTreeMap.getElem?_map, hclosed, Option.map_map]
      congr 1
      funext other
      simp only [Function.comp, answered, true_and]
      by_cases hk : k = byteOffset
      · simp [hk]
      · simp [hk]

theorem acknowledge_of_not_open
    (h : ¬ ∃ sw, t.switches[byteOffset]? = some sw ∧ sw.acknowledgedAt = none) :
    acknowledge t byteOffset adopt now = t := by
  rw [acknowledge]
  split
  · rfl
  · rename_i row hrow
    have hclosed : row.acknowledgedAt.isSome = true := by
      by_contra hopen
      exact h ⟨row, hrow, by simpa using hopen⟩
    rw [if_pos hclosed]

theorem acknowledge_observedModel :
    (acknowledge t byteOffset adopt now).observedModel = t.observedModel := by
  rw [acknowledge]
  repeat' split
  all_goals rfl

theorem acknowledge_events : (acknowledge t byteOffset adopt now).events = t.events := by
  rw [acknowledge]
  repeat' split
  all_goals rfl

theorem acknowledge_confirmedModel (hrow : t.switches[byteOffset]? = some sw)
    (hopen : sw.acknowledgedAt = none) :
    (acknowledge t byteOffset adopt now).confirmedModel =
      if adopt then some sw.toModel else t.confirmedModel := by
  simp only [acknowledge, hrow, hopen, Option.isSome_none, Bool.false_eq_true, if_false]
  cases adopt <;> rfl

@[simp] theorem answered_toModel (k : Int) (other : ModelSwitch) :
    (answered byteOffset sw adopt now k other).toModel = other.toModel := by
  rw [answered]
  split <;> rfl

@[simp] theorem answered_enforced (k : Int) (other : ModelSwitch) :
    (answered byteOffset sw adopt now k other).enforced = other.enforced := by
  rw [answered]
  split <;> rfl

/-- An answer leaves no switch onto an adopted model open. -/
theorem of_answered_open {k : Int} {other : ModelSwitch}
    (h : (answered byteOffset sw adopt now k other).acknowledgedAt = none) :
    other.acknowledgedAt = none ∧ k ≠ byteOffset ∧ (adopt = true → other.toModel ≠ sw.toModel) := by
  rw [answered] at h
  split at h
  · cases h
  · rename_i hkept
    rw [not_or] at hkept
    exact ⟨h, hkept.1, fun hadopt hsame => hkept.2 ⟨hadopt, hsame, h⟩⟩

/-- The last switch stays the last one. -/
theorem lastSwitch_acknowledge (hrow : t.switches[byteOffset]? = some sw)
    (hopen : sw.acknowledgedAt = none) {k : Int} {last : ModelSwitch} :
    LastSwitch (acknowledge t byteOffset adopt now) k last ↔
      ∃ other, LastSwitch t k other ∧ last = answered byteOffset sw adopt now k other := by
  simp only [LastSwitch, lookup_acknowledge hrow hopen, Option.map_eq_some_iff]
  constructor
  · rintro ⟨⟨other, hother, rfl⟩, hlast⟩
    exact ⟨other, ⟨hother, fun k' other' h => hlast k' _ ⟨other', h, rfl⟩⟩, rfl⟩
  · rintro ⟨other, ⟨hother, hlast⟩, rfl⟩
    exact ⟨⟨other, hother, rfl⟩, fun k' _ ⟨other', h, _⟩ => hlast k' other' h⟩

theorem Rows.acknowledge (hrows : Rows t) : Rows (acknowledge t byteOffset adopt now) := by
  by_cases hanswered : ∃ sw, t.switches[byteOffset]? = some sw ∧ sw.acknowledgedAt = none
  · obtain ⟨sw, hrow, hopen⟩ := hanswered
    refine ⟨fun k sw' h => ?_, ?_, fun k last h => ?_⟩
    · rw [lookup_acknowledge hrow hopen, Option.map_eq_some_iff] at h
      obtain ⟨other, hother, -⟩ := h
      rw [acknowledge_events]
      exact hrows.stored k other hother
    · rcases hrows.baseline with ⟨-, -, hempty⟩ | ⟨observed, confirmed, hb⟩
      · simp [hempty] at hrow
      · refine .inr ⟨observed, if adopt then sw.toModel else confirmed,
          acknowledge_observedModel.trans hb.observedModel, hb.nonempty, ?_⟩
        rw [acknowledge_confirmedModel hrow hopen, hb.confirmedModel]
        split <;> rfl
    · obtain ⟨other, hother, rfl⟩ := (lastSwitch_acknowledge hrow hopen).mp h
      rw [acknowledge_observedModel, answered_toModel]
      exact hrows.last k other hother
  · rwa [acknowledge_of_not_open hanswered]

/-- An answer to the switch `sw` keeps the observed model unaccepted, if it does not accept it. -/
theorem unaccepted_acknowledge_iff (hrows : Rows t) (hrow : t.switches[byteOffset]? = some sw)
    (hopen : sw.acknowledgedAt = none)
    (hother : adopt = true → t.observedModel ≠ some sw.toModel) :
    Unaccepted (acknowledge t byteOffset adopt now) ↔ Unaccepted t := by
  simp only [Unaccepted, lastSwitch_acknowledge hrow hopen, acknowledge_observedModel]
  have hanswer : ∀ k last, LastSwitch t k last →
      ((answered byteOffset sw adopt now k last).acknowledgedAt = none ∨
          (answered byteOffset sw adopt now k last).adopted = some false ↔
        last.acknowledgedAt = none ∨ last.adopted = some false) := by
    intro k last hlast
    rw [answered]
    split
    · rename_i htouched
      cases adopt with
      | true =>
          -- the last switch is onto the observed model, so that it is not one of those closed
          refine absurd (hrows.last k last hlast) (fun hobs => hother rfl (hobs.trans ?_))
          rcases htouched with rfl | ⟨-, hsame, -⟩
          · cases hrow.symm.trans hlast.1
            rfl
          · rw [hsame]
      | false =>
          rcases htouched with rfl | ⟨hadopt, -⟩
          · cases hrow.symm.trans hlast.1
            simp [hopen]
          · cases hadopt
    · rfl
  constructor
  · rintro ⟨k, _, ⟨last, hlast, rfl⟩, hobs, henf, hanswered⟩
    exact ⟨k, last, hlast,
      by simpa using hobs, by simpa using henf, (hanswer k last hlast).mp hanswered⟩
  · rintro ⟨k, last, hlast, hobs, henf, hkept⟩
    exact ⟨k, _, ⟨last, hlast, rfl⟩, by simpa using hobs, by simpa using henf,
      (hanswer k last hlast).mpr hkept⟩

end Answer

/-! ## A record -/

section Record

variable {t : Session} {byteOffset : Int} {row : EventRow}

/-- The record comes after those that are stored. -/
theorem Rows.fresh (hrows : Rows t)
    (horder : ∀ (k : Int) (other : EventRow), t.events[k]? = some other → k < byteOffset) :
    t.events[byteOffset]? = none ∧
      ∀ (k : Int) (sw : ModelSwitch), t.switches[k]? = some sw → k < byteOffset := by
  refine ⟨?_, fun k sw h => ?_⟩
  · by_contra hstored
    obtain ⟨other, hother⟩ := Option.ne_none_iff_exists'.mp hstored
    exact lt_irrefl _ (horder byteOffset other hother)
  · obtain ⟨other, hother⟩ := hrows.stored k sw h
    exact horder k other hother

/-- A record that does not move the model adds no switch. -/
theorem insertEvent_of_not_moves (hrows : Rows t) (hfresh : t.events[byteOffset]? = none)
    (hstays : ¬ Moves source t byteOffset row) :
    (insertEvent source t byteOffset row).switches = t.switches ∧
      ((∃ observed confirmed, t.HasBaseline observed confirmed ∧
          (insertEvent source t byteOffset row).HasBaseline observed confirmed) ∨
        t.observedModel = none ∧ t.switches = ∅ ∧
          (insertEvent source t byteOffset row).observedModel =
            (insertEvent source t byteOffset row).confirmedModel ∧
          ((insertEvent source t byteOffset row).observedModel = none ∨
            ∃ model, (insertEvent source t byteOffset row).HasBaseline model model)) := by
  rcases hrows.baseline with ⟨hobs, hconf, hempty⟩ | ⟨observed, confirmed, hb⟩
  · cases hmodel : recordModel source row with
    | none =>
        rw [insertEvent_noModel hfresh hmodel]
        exact ⟨rfl, .inr ⟨hobs, hempty, hobs.trans hconf.symm, .inl hobs⟩⟩
    | some model =>
        obtain ⟨hsame, hb⟩ := insertEvent_firstModel hfresh hobs hmodel
        rw [hconf, Option.getD_none] at hb
        exact ⟨hsame, .inr ⟨hobs, hempty, hb.observedModel.trans hb.confirmedModel.symm,
          .inr ⟨model, hb⟩⟩⟩
  · have hstay : ∀ model, recordModel source row = some model →
        model = observed ∨ Unreadable source (t.events.insert byteOffset row) byteOffset := by
      intro model hmodel
      by_contra hmoves
      rw [not_or] at hmoves
      exact hstays ⟨observed, model, hb.observedModel, hmodel, hmoves.1, hmoves.2⟩
    obtain ⟨hsame, hb'⟩ := insertEvent_stays hb hfresh hstay
    exact ⟨hsame, .inl ⟨observed, confirmed, hb, hb'⟩⟩

/-- A record that moves the model adds the last switch. -/
theorem insertEvent_of_moves (hrows : Rows t) (hfresh : t.events[byteOffset]? = none)
    (hnew : ∀ (k : Int) (sw : ModelSwitch), t.switches[k]? = some sw → k < byteOffset)
    (hmoves : Moves source t byteOffset row) :
    ∃ observed model confirmed sw, t.observedModel = some observed ∧ model ≠ observed ∧
      (insertEvent source t byteOffset row).HasBaseline model confirmed ∧
      LastSwitch (insertEvent source t byteOffset row) byteOffset sw ∧
      (∀ k, k ≠ byteOffset →
        (insertEvent source t byteOffset row).switches[k]? = t.switches[k]?) ∧
      sw.toModel = model ∧ sw.enforced = decide (model ≠ confirmed) ∧
      sw.acknowledgedAt = none := by
  obtain ⟨observed, model, hobs, hmodel, hne, hreadable⟩ := hmoves
  rcases hrows.baseline with ⟨hnone, -, -⟩ | ⟨observed', confirmed, hb⟩
  · rw [hnone] at hobs
    cases hobs
  · cases hb.observedModel.symm.trans hobs
    obtain ⟨sw, hinsert, hto, henf, hopen, hb'⟩ :=
      insertEvent_moves hb hfresh hmodel hne hreadable
    have hnotin : byteOffset ∉ t.switches := fun hmem => by
      obtain ⟨old, hold⟩ := Option.isSome_iff_exists.mp
        (Std.ExtTreeMap.mem_iff_isSome_getElem?.mp hmem)
      exact lt_irrefl _ (hnew byteOffset old hold)
    have hlookup : ∀ k, k ≠ byteOffset →
        (insertEvent source t byteOffset row).switches[k]? = t.switches[k]? := fun k hk => by
      rw [hinsert, Std.ExtTreeMap.getElem?_insertIfNew, if_neg (by simp [Ne.symm hk])]
    refine ⟨observed, model, confirmed, sw, hobs, hne, hb', ⟨?_, fun k other h => ?_⟩, hlookup,
      hto, henf, hopen⟩
    · rw [hinsert, Std.ExtTreeMap.getElem?_insertIfNew, if_pos ⟨by simp, hnotin⟩]
    · by_cases hk : k = byteOffset
      · exact hk.le
      · exact (hnew k other (hlookup k hk ▸ h)).le

theorem LastSwitch.unique {k k' : Int} {sw sw' : ModelSwitch} (h : LastSwitch t k sw)
    (h' : LastSwitch t k' sw') : k = k' ∧ sw = sw' := by
  obtain rfl : k = k' := le_antisymm (h'.2 k sw h.1) (h.2 k' sw' h'.1)
  exact ⟨rfl, Option.some.inj (h.1.symm.trans h'.1)⟩

theorem Rows.insertEvent (hrows : Rows t)
    (horder : ∀ (k : Int) (other : EventRow), t.events[k]? = some other → k < byteOffset) :
    Rows (insertEvent source t byteOffset row) := by
  obtain ⟨hfresh, hnew⟩ := hrows.fresh horder
  have hstored : ∀ (k : Int) (sw : ModelSwitch), k = byteOffset ∨ t.switches[k]? = some sw →
      ∃ other, (ModelSwitches.insertEvent source t byteOffset row).events[k]? = some other := by
    intro k sw h
    rw [insertEvent_events hfresh, Table.lookup_insert]
    split
    · exact ⟨row, rfl⟩
    · rename_i hne
      exact hrows.stored k sw (h.resolve_left (Ne.symm hne))
  by_cases hmoves : Moves source t byteOffset row
  · obtain ⟨observed, model, confirmed, sw, -, -, hb, hlast, hlookup, rfl, -⟩ :=
      insertEvent_of_moves hrows hfresh hnew hmoves
    refine ⟨fun k other h => hstored k other ?_, .inr ⟨_, _, hb⟩, fun k other h => ?_⟩
    · by_cases hk : k = byteOffset
      · exact .inl hk
      · exact .inr (hlookup k hk ▸ h)
    · obtain ⟨-, rfl⟩ := hlast.unique h
      exact hb.observedModel
  · obtain ⟨hsame, hbaseline⟩ := insertEvent_of_not_moves hrows hfresh hmoves
    refine ⟨fun k other h => hstored k other (.inr (hsame ▸ h)), ?_, fun k other h => ?_⟩
    · rcases hbaseline with ⟨observed, confirmed, -, hb⟩ | ⟨-, hempty, hequal, hnone | ⟨model, hb⟩⟩
      · exact .inr ⟨observed, confirmed, hb⟩
      · exact .inl ⟨hnone, hequal ▸ hnone, hsame.trans hempty⟩
      · exact .inr ⟨model, model, hb⟩
    · rw [LastSwitch, hsame] at h
      rcases hbaseline with ⟨observed, confirmed, hb, hb'⟩ | ⟨-, hempty, -⟩
      · rw [hb'.observedModel, ← hb.observedModel]
        exact hrows.last k other h
      · simp [hempty] at h

end Record

/-! ## A step and a run -/

theorem order_of_step {byteOffset : Int} {row : EventRow}
    (hstep : step source s (.ingest byteOffset row) = some s') :
    (∀ (k : Int) (other : EventRow), s.session.events[k]? = some other → k < byteOffset) ∧
      s' = { s with session := insertEvent source s.session byteOffset row } := by
  rw [step] at hstep
  split at hstep
  · rename_i horder
    cases hstep
    refine ⟨fun k other h => ?_, rfl⟩
    have hmem := Std.ExtTreeMap.mem_toList_iff_getElem?_eq_some.mpr h
    simpa using List.all_eq_true.mp horder (k, other) hmem
  · cases hstep

theorem rows_step : Preserved (step source) anyStep (fun s => Rows s.session) := by
  intro s a s' hrows _ hstep
  cases a with
  | ingest byteOffset row =>
      obtain ⟨horder, rfl⟩ := order_of_step hstep
      exact hrows.insertEvent horder
  | acknowledge pty byteOffset adopt now =>
      simp only [step] at hstep
      split at hstep <;> cases hstep
      · exact hrows.acknowledge
      · exact hrows
  | interrupt byteOffset =>
      cases hstep
      exact hrows
  | activity ptys =>
      cases hstep
      exact hrows

/-- Whether the rows tell the model after a record. -/
theorem alwaysAccurate_ingest_iff {byteOffset : Int} {row : EventRow} (hrows : Rows s.session)
    (hacc : AlwaysAccurate s) (hstep : step source s (.ingest byteOffset row) = some s') :
    AlwaysAccurate s' ↔ InOrder source s (.ingest byteOffset row) := by
  obtain ⟨horder, rfl⟩ := order_of_step hstep
  obtain ⟨hfresh, hnew⟩ := hrows.fresh horder
  obtain ⟨henforceable, hunaccepted⟩ := alwaysAccurate_iff.mp hacc
  rw [alwaysAccurate_iff]
  by_cases hmoves : Moves source s.session byteOffset row
  · obtain ⟨observed, model, confirmed, sw, hobs, hne, hb, hlast, hlookup, hto, henf, hopen⟩ :=
      insertEvent_of_moves hrows hfresh hnew hmoves
    constructor
    · -- a switch that was left to enforce is one onto the model the record leaves
      intro haccurate _ k old hold
      have hk : k ≠ byteOffset := (hnew k old hold.row).ne
      have hafter := (haccurate.1 k old
        ⟨(hlookup k hk).trans hold.row, hold.enforced, hold.isOpen, hold.uninterrupted⟩).1
      have hbefore := (henforceable k old hold).1
      rw [hb.observedModel] at hafter
      rw [hobs, ← hafter] at hbefore
      exact hne (Option.some.inj hbefore).symm
    · intro hnone
      refine ⟨fun k other hother => ?_, fun hdiffers => ?_⟩
      · by_cases hk : k = byteOffset
        · subst hk
          cases hlast.1.symm.trans hother.row
          have hne : sw.toModel ≠ confirmed := by
            have henforced := henf.symm.trans hother.enforced
            rw [hto]
            exact of_decide_eq_true henforced
          refine ⟨hto ▸ hb.observedModel, fun hsame => hne ?_⟩
          exact Option.some.inj (hsame.symm.trans hb.confirmedModel)
        · exact absurd ⟨(hlookup k hk).symm.trans hother.row, hother.enforced, hother.isOpen,
            hother.uninterrupted⟩ (hnone hmoves k other)
      · refine ⟨byteOffset, sw, hlast, hto ▸ hb.observedModel, ?_, .inl hopen⟩
        simp only [hb.observedModel, hb.confirmedModel, ne_eq, Option.some.injEq] at hdiffers
        rw [henf]
        exact decide_eq_true hdiffers
  · refine iff_of_true ⟨fun k other hother => ?_, fun hdiffers => ?_⟩ fun h => absurd h hmoves
    all_goals obtain ⟨hsame, hbaseline⟩ := insertEvent_of_not_moves hrows hfresh hmoves
    · have hold : Enforceable s k other :=
        ⟨hsame ▸ hother.row, hother.enforced, hother.isOpen, hother.uninterrupted⟩
      rcases hbaseline with ⟨observed, confirmed, hb, hb'⟩ | ⟨-, hempty, -⟩
      · have hmodels := henforceable k other hold
        rw [hb.observedModel, hb.confirmedModel] at hmodels
        exact ⟨hb'.observedModel.trans hmodels.1, hb'.confirmedModel ▸ hmodels.2⟩
      · have hrow := hold.row
        simp [hempty] at hrow
    · rcases hbaseline with ⟨observed, confirmed, hb, hb'⟩ | ⟨-, -, hequal, -⟩
      · have hbefore : s.session.observedModel ≠ s.session.confirmedModel := by
          rw [hb.observedModel, hb.confirmedModel, ← hb'.observedModel, ← hb'.confirmedModel]
          exact hdiffers
        simp only [Unaccepted, LastSwitch, hsame, hb'.observedModel, ← hb.observedModel]
        exact hunaccepted hbefore
      · exact absurd hequal hdiffers

/-- Whether the rows tell the model after an answer. -/
theorem alwaysAccurate_acknowledge_iff {pty : Uuid} {byteOffset : Int} {adopt : Bool}
    {now : Timestamp} (hrows : Rows s.session) (hacc : AlwaysAccurate s)
    (hstep : step source s (.acknowledge pty byteOffset adopt now) = some s') :
    AlwaysAccurate s' ↔ InOrder source s (.acknowledge pty byteOffset adopt now) := by
  simp only [step] at hstep
  split at hstep
  swap
  · rename_i hcurrent
    cases hstep
    exact iff_of_true hacc fun _ h => absurd h hcurrent
  rename_i hcurrent
  cases hstep
  by_cases hanswered : ∃ sw, s.session.switches[byteOffset]? = some sw ∧ sw.acknowledgedAt = none
  swap
  · rw [acknowledge_of_not_open hanswered]
    exact iff_of_true hacc fun sw _ _ hrow hopen => absurd ⟨sw, hrow, hopen⟩ hanswered
  obtain ⟨sw, hrow, hopen⟩ := hanswered
  obtain ⟨henforceable, hunaccepted⟩ := alwaysAccurate_iff.mp hacc
  have hinOrder : InOrder source s (.acknowledge pty byteOffset adopt now) ↔
      (adopt = true → s.session.observedModel = some sw.toModel ∨ Unaccepted s.session) := by
    refine ⟨fun h hadopt => h sw hcurrent hadopt hrow hopen, fun h sw' _ hadopt hrow' _ => ?_⟩
    cases hrow.symm.trans hrow'
    exact h hadopt
  -- the answer closes the switches onto the model it confirms
  have hstill : ∀ k other, Enforceable { s with
        session := acknowledge s.session byteOffset adopt now } k other →
      (acknowledge s.session byteOffset adopt now).observedModel = some other.toModel ∧
        (acknowledge s.session byteOffset adopt now).confirmedModel ≠ some other.toModel := by
    intro k other hother
    obtain ⟨old, hold, rfl⟩ := Option.map_eq_some_iff.mp
      ((lookup_acknowledge hrow hopen k).symm.trans hother.row)
    obtain ⟨hopenOld, -, hdiffers⟩ := of_answered_open hother.isOpen
    have hmodels := henforceable k old
      ⟨hold, by simpa using hother.enforced, hopenOld, hother.uninterrupted⟩
    rw [acknowledge_observedModel, acknowledge_confirmedModel hrow hopen, answered_toModel]
    refine ⟨hmodels.1, ?_⟩
    split
    · rename_i hadopt
      exact fun hsame => hdiffers hadopt (Option.some.inj hsame).symm
    · exact hmodels.2
  rw [alwaysAccurate_iff, hinOrder, acknowledge_observedModel,
    acknowledge_confirmedModel hrow hopen]
  by_cases honto : adopt = true ∧ s.session.observedModel = some sw.toModel
  · refine iff_of_true ⟨?_, fun hdiffers => absurd honto.2 ?_⟩ fun _ => .inl honto.2
    · simpa only [acknowledge_observedModel, acknowledge_confirmedModel hrow hopen] using hstill
    · simpa [honto.1] using hdiffers
  · have hother : adopt = true → s.session.observedModel ≠ some sw.toModel :=
      fun hadopt hsame => honto ⟨hadopt, hsame⟩
    rw [unaccepted_acknowledge_iff hrows hrow hopen hother]
    constructor
    · rintro ⟨-, h⟩ hadopt
      refine .inr (h ?_)
      rw [if_pos hadopt]
      exact hother hadopt
    · intro h
      refine ⟨by simpa only [acknowledge_observedModel, acknowledge_confirmedModel hrow hopen]
        using hstill, fun hdiffers => ?_⟩
      by_cases hadopt : adopt = true
      · exact (h hadopt).resolve_left (hother hadopt)
      · rw [if_neg hadopt] at hdiffers
        exact hunaccepted hdiffers

theorem alwaysAccurate_step_iff (hrows : Rows s.session) (hacc : AlwaysAccurate s)
    (hstep : step source s a = some s') : AlwaysAccurate s' ↔ InOrder source s a := by
  cases a with
  | ingest byteOffset row => exact alwaysAccurate_ingest_iff hrows hacc hstep
  | acknowledge pty byteOffset adopt now =>
      exact alwaysAccurate_acknowledge_iff hrows hacc hstep
  | interrupt byteOffset =>
      cases hstep
      refine iff_of_true (alwaysAccurate_iff.mpr ?_) trivial
      obtain ⟨henforceable, hunaccepted⟩ := alwaysAccurate_iff.mp hacc
      exact ⟨fun k sw h => henforceable k sw ⟨h.row, h.enforced, h.isOpen,
        fun hmem => h.uninterrupted (List.mem_cons_of_mem _ hmem)⟩, hunaccepted⟩
  | activity ptys =>
      cases hstep
      exact iff_of_true (fun ptys => hacc ptys) trivial

theorem Rows.new : Rows Session.new where
  stored := by simp [Session.new]
  baseline := .inl ⟨rfl, rfl, rfl⟩
  last := by simp [LastSwitch, Session.new]

theorem alwaysAccurate_new (ptys : List PtySession) : AlwaysAccurate (.new ptys) :=
  alwaysAccurate_iff.mpr ⟨fun k sw h => by simpa [State.new, Session.new] using h.row,
    fun h => absurd rfl h⟩

/-- **Interrupting the unaccepted models.** As long as no record leaves a switch behind that is
still to be enforced, and no answer accepts a model while the session is on another one that its
user accepted, the switches that are enforced tell the model the session is on. The first step that
does so breaks this, if not before then when the next turn runs. -/
theorem enforcement_accurate {ptys : List PtySession}
    (hrun : Run (step source) (InOrder source) (.new ptys) s) :
    Accurate s ∧ ∀ a s', step source s a = some s' →
      ((∀ ptys, Accurate { s' with ptys := ptys }) ↔ InOrder source s a) := by
  have hinv : Rows s.session ∧ AlwaysAccurate s := by
    refine hrun.invariant (I := fun s => Rows s.session ∧ AlwaysAccurate s) ?_
      ⟨Rows.new, alwaysAccurate_new ptys⟩
    rintro s a s' ⟨hrows, hacc⟩ hok hstep
    exact ⟨rows_step s a s' hrows trivial hstep,
      (alwaysAccurate_step_iff hrows hacc hstep).mpr hok⟩
  exact ⟨hinv.2 s.ptys, fun a s' hstep => alwaysAccurate_step_iff hinv.1 hinv.2 hstep⟩

section Examples

/-- The session starts on one model, falls back to a second and the turn is interrupted. -/
def fallbackInterrupted : List Act :=
  [.ingest 0 (turnContext "gpt-5"), .ingest 90 (turnContext "gpt-5-mini"), .interrupt 90]

/-- While no turn runs the session falls back and comes back, and then a turn starts. -/
def fallbackAndBack : List Act :=
  [.ingest 0 (turnContext "gpt-5"), .ingest 90 (turnContext "gpt-5-mini"),
    .ingest 180 (turnContext "gpt-5"), .activity [workingPty]]

/-- The state after some steps, or the first one. -/
def after (acts : List Act) : State := (runList (step .codex) (.new []) acts).getD (.new [])

theorem enforcement_accurate_fallbackInterrupted :
    Accurate (after fallbackInterrupted) ∧
      ∀ a s', step .codex (after fallbackInterrupted) a = some s' →
        ((∀ ptys, Accurate { s' with ptys := ptys }) ↔
          InOrder .codex (after fallbackInterrupted) a) := by
  have hfirst : InOrder .codex (.new []) (.ingest 0 (turnContext "gpt-5")) := by
    rintro ⟨observed, model, hobs, -⟩
    cases hobs
  have hmove : InOrder .codex (after [.ingest 0 (turnContext "gpt-5")])
      (.ingest 90 (turnContext "gpt-5-mini")) := by
    intro _ k sw h
    have hnone : (after [.ingest 0 (turnContext "gpt-5")]).session.switches = ∅ := rfl
    have hrow := h.row
    simp [hnone] at hrow
  have hinterrupt : InOrder .codex
      (after [.ingest 0 (turnContext "gpt-5"), .ingest 90 (turnContext "gpt-5-mini")])
      (.interrupt 90) := trivial
  exact enforcement_accurate
    ((((Run.refl (State.new [])).snoc hfirst rfl).snoc hmove rfl).snoc hinterrupt rfl)

/-- The turn on the model the user asked for is interrupted, for the switch away from it. -/
theorem fallbackAndBack_not_accurate :
    Run (step .codex) anyStep (.new []) (after fallbackAndBack) ∧
      ¬ Accurate (after fallbackAndBack) := by
  refine ⟨Run.of_runList fallbackAndBack rfl, fun h => ?_⟩
  have hpending : ((90 : Int), (0 : Uuid)) ∈ pendingEnforcement (after fallbackAndBack) :=
    mem_pendingEnforcement.mpr ⟨⟨_, rfl, rfl, rfl, by decide⟩, workingPty,
      List.mem_singleton_self _, rfl, rfl⟩
  obtain ⟨sw, hrow, hobs, -⟩ := h.pending 90 0 hpending
  have hto : sw.toModel = "gpt-5-mini" := by
    cases hrow
    rfl
  have hnow : (after fallbackAndBack).session.observedModel = some "gpt-5" := rfl
  rw [hto, hnow] at hobs
  exact absurd hobs (by decide)

end Examples

end Sulion.ModelEnforcement
