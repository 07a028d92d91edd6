import Sulion.Node.Control

set_option autoImplicit false

/-! # Closing a connection that has been replaced

`disconnected` guards the map and the node row with the id of its connection, and notifies every
terminal stream. The samples are keyed by the node, not by the connection that reported them.
-/

namespace Sulion.Node

open Transition

/-! ## The property -/

/-- Connection `j` entered the map after `i`. -/
def Newer (s : Control) (i j : ConnectionId) : Prop := s.rank i < s.rank j

instance (s : Control) (i j : ConnectionId) : Decidable (Newer s i j) :=
  inferInstanceAs (Decidable (_ < _))

/-- The connection whose call of `disconnected` an action belongs to. -/
def Action.closes : Action → Option ConnectionId
  | .clearActive i | .collectStreams i | .notify i _ | .recordDisconnect i _ => some i
  | _ => none

/-- The call of `disconnected` for `i` is late: it has found its connection out of the map, or
another connection has taken its place. -/
def LateCall (s : Control) (i : ConnectionId) : Prop :=
  match (s.connection i).place with
  | .closing .guarded => s.active ≠ some i
  | .closing (.cleared late) | .closing (.notifying late _) => late = true ∨ s.active ≠ none
  | _ => False

/-- What a late call for `i` must leave as it is. -/
structure Undisturbed (i : ConnectionId) (s s' : Control) : Prop where
  active : s'.active = s.active
  node : s'.node = s.node
  sessions : s'.sessions = s.sessions
  hostStats : s'.hostStats = s.hostStats
  devenvStatus : s'.devenvStatus = s.devenvStatus
  disconnects : ∀ id, Newer s i (s.openedOver id) → s'.disconnects id = s.disconnects id

/-- The samples that can be read were reported over the active connection. -/
def SamplesCurrent (s : Control) : Prop :=
  ∀ i, s.active = some i →
    (∀ sample, s.currentHostStats = some sample → sample.reporter = i) ∧
    (∀ sample, s.currentDevenvStatus = some sample → sample.reporter = i)

/-- Late calls disturb nothing in steps that satisfy `ok`, and the samples are current. -/
def Guarded (ok : Control → Action → Prop) (s : Control) : Prop :=
  SamplesCurrent s ∧
  ∀ a i s', a.closes = some i → LateCall s i → ok s a → step s a = some s' → Undisturbed i s s'

/-! ## The condition -/

/-- The connection the node row names. -/
def Control.rowConnection (s : Control) : Option ConnectionId := s.node.bind DevNode.connectionId

/-- The actions of `approve_pairing`. -/
def Action.ofApproval : Action → Bool
  | .approve _ | .cancelActive => true
  | _ => false

/-- No other connection is active. -/
def Unreplaced (s : Control) (i : ConnectionId) : Prop := s.active = none ∨ s.active = some i

instance (s : Control) (i : ConnectionId) : Decidable (Unreplaced s i) :=
  inferInstanceAs (Decidable (_ ∨ _))

/-- A connection enters the map when no sample is stored and the row does not name another that
has been in it; a sample is stored while no other connection is active; and `disconnected` finds
no stream that was opened over a newer connection. -/
def Orderly (s : Control) : Action → Prop
  | .insert i =>
      s.hostStats = none ∧ s.devenvStatus = none ∧
        ∀ j ∈ s.rowConnection, j ≠ i → s.rank j = 0
  | .saveHost i | .saveDevenv i => Unreplaced s i
  | .collectStreams i => ∀ id ∈ s.terminalStreams, ¬ Newer s i (s.openedOver id)
  | a => a.ofApproval = false

instance : DecidableRel Orderly := fun s a => by
  cases a <;> unfold Orderly <;> infer_instance

/-! ## The invariant -/

/-- The connection has not entered the map. -/
def Place.isBefore : Place → Bool
  | .absent | .pairing _ | .checked | .recorded => true
  | _ => false

/-- The connection has entered the map and not yet returned from `disconnected`. -/
def Place.isInside : Place → Bool
  | .open | .beating _ _ | .closing _ => true
  | _ => false

/-- The connection may be in the map. -/
def Place.isServed : Place → Bool
  | .open | .beating _ _ | .closing .guarded => true
  | _ => false

/-- The connection has removed itself from the map, or is closed. -/
def Place.isLeaving : Place → Bool
  | .closing (.cleared false) | .closing (.notifying false _) | .closed => true
  | _ => false

/-- The connection has been recorded. -/
def Place.isRecorded : Place → Bool
  | .absent | .pairing _ | .checked => false
  | _ => true

structure Ordered (s : Control) : Prop where
  approving : s.approving = 0
  absent : ∀ i, s.connections ≤ i → (s.connection i).place = .absent
  before : ∀ i, (s.connection i).place.isBefore = true → s.rank i = 0
  inside : ∀ i, (s.connection i).place.isInside = true → 0 < s.rank i
  served : ∀ i, s.active = some i → (s.connection i).place.isServed = true
  recorded : ∀ i, s.rowConnection = some i → (s.connection i).place.isRecorded = true
  row : ∀ i, s.rowConnection = some i → 0 < s.rank i →
    s.active = some i ∨ s.active = none ∧ (s.connection i).place.isLeaving = true
  expiring : ∀ i ∈ s.expiring, s.rowConnection ≠ some i ∧ (s.connection i).place.isRecorded = true
  opening : ∀ i ∈ s.opening, 0 < s.rank i
  streams : ∀ id ∈ s.terminalStreams, id < s.nextStream
  opened : ∀ id < s.nextStream, 0 < s.rank (s.openedOver id)
  notifying : ∀ i late remaining, (s.connection i).place = .closing (.notifying late remaining) →
    ∀ id ∈ remaining, id < s.nextStream ∧ ¬ Newer s i (s.openedOver id)
  hostStats : ∀ i sample, s.active = some i → s.hostStats = some sample → sample.reporter = i
  devenvStatus : ∀ i sample, s.active = some i → s.devenvStatus = some sample → sample.reporter = i

/-! ## The connection of the row -/

theorem requestPairing_connectionId (node : Option DevNode) (key : PublicKey) :
    (requestPairing node key).bind DevNode.connectionId = node.bind DevNode.connectionId := by
  unfold requestPairing
  cases node with
  | none => rfl
  | some row =>
      dsimp only
      split <;> rfl

theorem ensureInternalNode_connectionId {node : Option DevNode} {now : Timestamp} {row : DevNode}
    (h : ensureInternalNode node now = some row) :
    row.connectionId = node.bind DevNode.connectionId := by
  unfold ensureInternalNode at h
  split at h
  · cases h
    rfl
  · split at h <;> cases h
    rfl

theorem heartbeat_connectionId {row row' : DevNode} {boot : Uuid} {i : ConnectionId}
    {now : Timestamp} (h : row.heartbeat boot i now = some row') :
    row'.connectionId = row.connectionId := by
  unfold DevNode.heartbeat at h
  split at h <;> cases h
  rfl

theorem disconnect_connectionId {row row' : DevNode} {boot : Uuid} {i : ConnectionId}
    {now : Timestamp} (h : row.disconnect boot i now = some row') :
    row.connectionId = some i ∧ row'.connectionId = none := by
  unfold DevNode.disconnect at h
  split at h <;> cases h
  rename_i his
  simp only [DevNode.isOf, Bool.and_eq_true, decide_eq_true_eq] at his
  exact ⟨his.2, rfl⟩

/-! ## Moving one connection on -/

/-- The bookkeeping that only registration, expiry and `open_terminal` change. -/
structure SameBooks (s s' : Control) : Prop where
  approving : s'.approving = s.approving
  connections : s'.connections = s.connections
  rank : s'.rank = s.rank
  expiring : s'.expiring = s.expiring
  opening : s'.opening = s.opening
  openedOver : s'.openedOver = s.openedOver
  nextStream : s'.nextStream = s.nextStream
  streams : ∀ id ∈ s'.terminalStreams, id ∈ s.terminalStreams

/-- Where connection `i` may go from `p`. -/
structure Onward (p q : Place) : Prop where
  absent : p ≠ .absent
  before : q.isBefore = true → p.isBefore = true
  inside : q.isInside = true → p.isInside = true
  recorded : p.isRecorded = true → q.isRecorded = true

theorem onward_of_served {p q : Place} (hp : p.isServed = true) (hq : q.isServed = true) :
    Onward p q := by
  refine ⟨?_, ?_, ?_, ?_⟩
  · intro h
    rw [h] at hp
    cases hp
  · cases q <;> simp_all [Place.isServed, Place.isBefore]
  · cases p <;> simp_all [Place.isServed, Place.isInside]
  · cases q <;> simp_all [Place.isServed, Place.isRecorded]

/-- Connection `i` goes on to `q`. What depends on the map, the row and the samples is left to
the caller. -/
theorem Ordered.move {s s' : Control} (hs : Ordered s) {i : ConnectionId} {q : Place}
    (hbooks : SameBooks s s')
    (hplace : ∀ j, (s'.connection j).place = if j = i then q else (s.connection j).place)
    (hon : Onward (s.connection i).place q)
    (hactive : ∀ j, s'.active = some j → s.active = some j ∧ (j = i → q.isServed = true))
    (hnotify : ∀ late remaining, q = .closing (.notifying late remaining) →
      ∀ id ∈ remaining, id < s.nextStream ∧ ¬ Newer s i (s.openedOver id))
    (hnames : ∀ j, s'.rowConnection = some j → s.rowConnection = some j)
    (hrow : ∀ j, s'.rowConnection = some j → 0 < s.rank j →
      s'.active = some j ∨ s'.active = none ∧ (s'.connection j).place.isLeaving = true)
    (hhost : ∀ j sample, s'.active = some j → s'.hostStats = some sample → sample.reporter = j)
    (hdevenv : ∀ j sample, s'.active = some j → s'.devenvStatus = some sample →
      sample.reporter = j) : Ordered s' := by
  obtain ⟨happ, hconn, hrank, hexp, hopen, hover, hnext, hstreams⟩ := hbooks
  obtain ⟨habs, hbef, hins, hrec⟩ := hon
  refine ⟨happ.trans hs.approving, ?_, ?_, ?_, ?_, ?_, ?_, ?_, ?_, ?_, ?_, ?_, hhost, hdevenv⟩
  · intro j hj
    rw [hconn] at hj
    rw [hplace]
    split
    · rename_i heq
      subst heq
      exact absurd (hs.absent j hj) habs
    · exact hs.absent j hj
  · intro j hj
    rw [hplace] at hj
    rw [hrank]
    split at hj
    · rename_i heq
      subst heq
      exact hs.before j (hbef hj)
    · exact hs.before j hj
  · intro j hj
    rw [hplace] at hj
    rw [hrank]
    split at hj
    · rename_i heq
      subst heq
      exact hs.inside j (hins hj)
    · exact hs.inside j hj
  · intro j hj
    obtain ⟨hold, hserved⟩ := hactive j hj
    rw [hplace]
    split
    · rename_i heq
      exact hserved heq
    · exact hs.served j hold
  · intro j hj
    have hold := hs.recorded j (hnames j hj)
    rw [hplace]
    split
    · rename_i heq
      subst heq
      exact hrec hold
    · exact hold
  · intro j hj hpos
    rw [hrank] at hpos
    exact hrow j hj hpos
  · intro j hj
    rw [hexp] at hj
    obtain ⟨hne, hold⟩ := hs.expiring j hj
    refine ⟨fun h => hne (hnames j h), ?_⟩
    rw [hplace]
    split
    · rename_i heq
      subst heq
      exact hrec hold
    · exact hold
  · rw [hopen, hrank]
    exact hs.opening
  · intro id hid
    rw [hnext]
    exact hs.streams id (hstreams id hid)
  · rw [hnext, hrank, hover]
    exact hs.opened
  · intro j late remaining hj id hid
    rw [hplace] at hj
    rw [hnext, Newer, hrank, hover]
    split at hj
    · rename_i heq
      subst heq
      exact hnotify late remaining hj id hid
    · exact hs.notifying j late remaining hj id hid

/-- A step that leaves the map and the samples alone, and lets the row at most lose its
connection. -/
theorem Ordered.advance {s s' : Control} (hs : Ordered s) (i : ConnectionId) (q : Place)
    (hbooks : SameBooks s s') (hactive : s'.active = s.active)
    (hhost : s'.hostStats = s.hostStats) (hdevenv : s'.devenvStatus = s.devenvStatus)
    (hnames : ∀ j, s'.rowConnection = some j → s.rowConnection = some j)
    (hplace : ∀ j, (s'.connection j).place = if j = i then q else (s.connection j).place)
    (hon : Onward (s.connection i).place q)
    (hserved : (s.connection i).place.isServed = true → q.isServed = true)
    (hleaving : (s.connection i).place.isLeaving = true → q.isLeaving = true)
    (hnotify : ∀ late remaining, q = .closing (.notifying late remaining) →
      ∀ id ∈ remaining, id < s.nextStream ∧ ¬ Newer s i (s.openedOver id)) : Ordered s' := by
  refine hs.move hbooks hplace hon ?_ hnotify hnames ?_ ?_ ?_
  · intro j hj
    rw [hactive] at hj
    refine ⟨hj, fun heq => ?_⟩
    subst heq
    exact hserved (hs.served j hj)
  · intro j hj hpos
    rw [hactive, hplace]
    obtain hact | ⟨hnone, hleave⟩ := hs.row j (hnames j hj) hpos
    · exact Or.inl hact
    · refine Or.inr ⟨hnone, ?_⟩
      split
      · rename_i heq
        subst heq
        exact hleaving hleave
      · exact hleave
  · rw [hactive, hhost]
    exact hs.hostStats
  · rw [hactive, hdevenv]
    exact hs.devenvStatus

/-- A served connection goes on, still served; its samples may be stored. -/
theorem Ordered.serve {s s' : Control} (hs : Ordered s) {i : ConnectionId} {q : Place}
    (hp : (s.connection i).place.isServed = true) (hq : q.isServed = true)
    (hbooks : SameBooks s s') (hconnection : s'.connection = (s.goTo i q).connection)
    (hactive : s'.active = s.active) (hnames : s'.rowConnection = s.rowConnection)
    (hhost : ∀ j sample, s.active = some j → s'.hostStats = some sample → sample.reporter = j)
    (hdevenv : ∀ j sample, s.active = some j → s'.devenvStatus = some sample →
      sample.reporter = j) : Ordered s' := by
  have hplace : ∀ j, (s'.connection j).place = if j = i then q else (s.connection j).place := by
    rw [hconnection]
    exact fun j => Control.goTo_place s i j q
  refine hs.move hbooks hplace (onward_of_served hp hq) ?_ ?_ ?_ ?_ ?_ ?_
  · rw [hactive]
    exact fun j hj => ⟨hj, fun _ => hq⟩
  · intro late remaining heq
    rw [heq] at hq
    cases hq
  · rw [hnames]
    exact fun _ => id
  · intro j hj hpos
    rw [hnames] at hj
    rw [hactive, hplace]
    obtain hact | ⟨hnone, hleave⟩ := hs.row j hj hpos
    · exact Or.inl hact
    · refine Or.inr ⟨hnone, ?_⟩
      have hji : j ≠ i := by
        intro heq
        subst heq
        cases hpl : (s.connection j).place with
        | closing r => cases r <;> simp_all [Place.isServed, Place.isLeaving]
        | _ => simp_all [Place.isServed, Place.isLeaving]
      rw [if_neg hji]
      exact hleave
  · rw [hactive]
    exact hhost
  · rw [hactive]
    exact hdevenv

/-! ## Steps -/

theorem ordered_insert {s s' : Control} {i : ConnectionId} (hs : Ordered s)
    (hok : Orderly s (.insert i)) (h : step s (.insert i) = some s') : Ordered s' := by
  obtain ⟨hhost, hdevenv, hnamed⟩ := hok
  obtain ⟨happ, habs, hbef, hins, hserved, hrec, hrow, hexp, hopen, hstr, hopened, hnot, _, _⟩ := hs
  simp only [step] at h
  split at h
  · rename_i hplace
    cases h
    constructor <;>
      grind [Function.update_apply, Place.isBefore, Place.isInside, Place.isServed,
        Place.isRecorded, Place.isLeaving, Newer, Control.rowConnection]
  · cases h

theorem ordered_record {s s' : Control} {i : ConnectionId} {now : Timestamp} (hs : Ordered s)
    (h : step s (.record i now) = some s') : Ordered s' := by
  obtain ⟨happ, habs, hbef, hins, hserved, hrec, hrow, hexp, hopen, hstr, hopened, hnot, hh, hd⟩ :=
    hs
  simp only [step] at h
  split at h
  · rename_i row hplace hrow
    cases h
    constructor <;>
      grind [Place.isBefore, Place.isInside, Place.isServed, Place.isRecorded, Place.isLeaving,
        Newer, Control.rowConnection, DevNode.recordConnection]
  · cases h

/-- A new connection has not entered the map. -/
theorem Ordered.connect {s : Control} (hs : Ordered s) (boot : Uuid) (key : Option PublicKey)
    {place : Place} (hplace : place.isBefore = true) : Ordered (s.connect boot key place) := by
  obtain ⟨happ, habs, hbef, hins, hserved, hrec, hrow, hexp, hopen, hstr, hopened, hnot, hh, hd⟩ :=
    hs
  have hnew := habs s.connections le_rfl
  have hout : place.isInside = false := by
    cases place <;> simp_all [Place.isBefore, Place.isInside]
  unfold Control.connect
  constructor <;>
    grind [Function.update_apply, Place.isBefore, Place.isInside, Place.isServed,
      Place.isRecorded, Place.isLeaving, Newer, Control.rowConnection]

theorem Ordered.setNode {s : Control} (hs : Ordered s) {node : Option DevNode}
    (hnode : node.bind DevNode.connectionId = s.rowConnection) :
    Ordered { s with node := node } := by
  have hrow : Control.rowConnection { s with node := node } = s.rowConnection := hnode
  exact ⟨hs.approving, hs.absent, hs.before, hs.inside, hs.served, by rw [hrow]; exact hs.recorded,
    by rw [hrow]; exact hs.row, by rw [hrow]; exact hs.expiring, hs.opening, hs.streams, hs.opened,
    hs.notifying, hs.hostStats, hs.devenvStatus⟩

/-- The expired connection is no longer the one of the row. -/
theorem ordered_expire {s s' : Control} {now : Timestamp} (hs : Ordered s)
    (h : step s (.expire now) = some s') : Ordered s' := by
  simp only [step] at h
  split at h
  · rename_i row hrow
    split at h
    · rename_i boot connection _
      split at h
      · rename_i row' hdisconnect
        cases h
        obtain ⟨hold, hnew⟩ := disconnect_connectionId hdisconnect
        have hnamed : s.rowConnection = some connection := by
          rw [Control.rowConnection, hrow]
          exact hold
        have hnone : ∀ j, row'.connectionId ≠ some j := by
          intro j hj
          rw [hnew] at hj
          cases hj
        refine ⟨hs.approving, hs.absent, hs.before, hs.inside, hs.served, ?_, ?_, ?_, hs.opening,
          hs.streams, hs.opened, hs.notifying, hs.hostStats, hs.devenvStatus⟩
        · intro j hj
          exact absurd hj (hnone j)
        · intro j hj
          exact absurd hj (hnone j)
        · intro j hj
          refine ⟨hnone j, ?_⟩
          obtain rfl | hj := List.mem_cons.mp hj
          · exact hs.recorded _ hnamed
          · exact (hs.expiring j hj).2
      · cases h
    · cases h
  · cases h

theorem ordered_clearActive {s s' : Control} {i : ConnectionId} (hs : Ordered s)
    (h : step s (.clearActive i) = some s') : Ordered s' := by
  simp only [step] at h
  split at h
  · rename_i hplace
    have hon : ∀ late, Onward (s.connection i).place (.closing (.cleared late)) := by
      intro late
      rw [hplace]
      exact ⟨by simp, by simp [Place.isBefore], by simp [Place.isInside],
        by simp [Place.isRecorded]⟩
    split at h
    · rename_i hactive
      cases h
      refine hs.move (i := i) ⟨rfl, rfl, rfl, rfl, rfl, rfl, rfl, fun _ => id⟩ (by simp) (hon false)
        (by simp) (by simp) (fun _ => id) ?_ (by simp) (by simp)
      intro j hj hpos
      refine Or.inr ⟨rfl, ?_⟩
      -- The row names the connection that leaves, for it was in the map.
      have hji : j = i := by
        obtain hact | ⟨hnone, _⟩ := hs.row j hj hpos
        · rw [hactive] at hact
          exact (Option.some.inj hact).symm
        · rw [hactive] at hnone
          cases hnone
      subst hji
      simp [Place.isLeaving]
    · rename_i hactive
      cases h
      refine hs.move (i := i) ⟨rfl, rfl, rfl, rfl, rfl, rfl, rfl, fun _ => id⟩ (by simp) (hon true)
        ?_ (by simp) (fun _ => id) ?_ hs.hostStats hs.devenvStatus
      · intro j hj
        refine ⟨hj, fun heq => ?_⟩
        subst heq
        exact absurd hj hactive
      · intro j hj hpos
        obtain hact | ⟨hnone, hleave⟩ := hs.row j hj hpos
        · exact Or.inl hact
        · refine Or.inr ⟨hnone, ?_⟩
          have hji : j ≠ i := by
            intro heq
            subst heq
            rw [hplace] at hleave
            cases hleave
          rw [Control.goTo_place, if_neg hji]
          exact hleave
  · cases h

/-- A sample is stored while no other connection is active. -/
theorem stored_current {s : Control} {i j : ConnectionId} {old : Option Sample}
    {value : Option Nat} {sample : Sample} (hok : Unreplaced s i) (hj : s.active = some j)
    (hold : ∀ sample, s.active = some j → old = some sample → sample.reporter = j)
    (h : ((value.map fun v => (⟨i, v⟩ : Sample)) <|> old) = some sample) :
    sample.reporter = j := by
  cases value with
  | none => exact hold sample hj h
  | some v =>
      cases h
      obtain hnone | hi := hok
      · rw [hnone] at hj
        cases hj
      · rw [hj] at hi
        exact (Option.some.inj hi).symm

theorem ordered_step : Preserved step Orderly Ordered := by
  intro s a s' hs hok h
  have hbooks : ∀ i q, SameBooks s (s.goTo i q) := fun i q =>
    ⟨rfl, rfl, rfl, rfl, rfl, rfl, rfl, fun _ => id⟩
  cases a with
  | approve now | cancelActive => cases hok
  | insert i => exact ordered_insert hs hok h
  | record i now => exact ordered_record hs h
  | expire now => exact ordered_expire hs h
  | clearActive i => exact ordered_clearActive hs h
  | authenticate hello =>
      simp only [step] at h
      split at h
      · split at h <;> cases h <;> exact hs.connect _ _ rfl
      · cases h
  | startLoopback boot now =>
      simp only [step] at h
      split at h
      · rename_i row hrow
        cases h
        exact (hs.connect boot none rfl).setNode (ensureInternalNode_connectionId hrow)
      · cases h
  | requestPairing i =>
      simp only [step] at h
      split at h
      · rename_i key hplace
        cases h
        have hgo : Ordered (s.goTo i .closed) := by
          refine hs.advance i .closed (hbooks i _) rfl rfl rfl (fun _ => id) (by simp) ?_ ?_ ?_
            (by simp)
          all_goals rw [hplace]
          · exact ⟨by simp, by simp [Place.isBefore], by simp [Place.isInside],
              by simp [Place.isRecorded]⟩
          · simp [Place.isServed]
          · simp [Place.isLeaving]
        exact hgo.setNode (requestPairing_connectionId s.node key)
      · cases h
  | validate i payload =>
      simp only [step] at h
      split at h
      · rename_i hplace
        split at h <;> cases h <;>
          exact hs.serve (by simp [hplace, Place.isServed]) rfl (hbooks i _) rfl rfl rfl
            hs.hostStats hs.devenvStatus
      · cases h
  | close i =>
      simp only [step] at h
      split at h
      · rename_i hplace
        cases h
        exact hs.serve (by simp [hplace, Place.isServed]) rfl (hbooks i _) rfl rfl rfl
          hs.hostStats hs.devenvStatus
      · cases h
  | storeHeartbeat i now =>
      simp only [step] at h
      split at h
      · rename_i payload hplace
        split at h
        · rename_i row hbeat
          cases h
          obtain ⟨old, hold, hbeat⟩ := Option.bind_eq_some_iff.mp hbeat
          have hnames : some row >>= DevNode.connectionId = s.rowConnection := by
            rw [Control.rowConnection, hold]
            exact heartbeat_connectionId hbeat
          exact hs.serve (by simp [hplace, Place.isServed]) rfl
            ⟨rfl, rfl, rfl, rfl, rfl, rfl, rfl, fun _ => id⟩ rfl rfl hnames
            hs.hostStats hs.devenvStatus
        · cases h
          exact hs.serve (by simp [hplace, Place.isServed]) rfl (hbooks i _) rfl rfl rfl
            hs.hostStats hs.devenvStatus
      · cases h
  | saveHost i =>
      simp only [step] at h
      split at h
      · rename_i payload hplace
        cases h
        refine hs.serve (by simp [hplace, Place.isServed]) rfl
          ⟨rfl, rfl, rfl, rfl, rfl, rfl, rfl, fun _ => id⟩ rfl rfl rfl ?_ hs.devenvStatus
        exact fun j sample hj => stored_current hok hj (hs.hostStats j)
      · cases h
  | saveDevenv i =>
      simp only [step] at h
      split at h
      · rename_i payload hplace
        cases h
        refine hs.serve (by simp [hplace, Place.isServed]) rfl
          ⟨rfl, rfl, rfl, rfl, rfl, rfl, rfl, fun _ => id⟩ rfl rfl rfl hs.hostStats ?_
        exact fun j sample hj => stored_current hok hj (hs.devenvStatus j)
      · cases h
  | collectStreams i =>
      simp only [step] at h
      split at h
      · rename_i late hplace
        cases h
        refine hs.advance i (.closing (.notifying late s.terminalStreams)) (hbooks i _) rfl rfl rfl
          (fun _ hj => hj) (by simp) ?_ ?_ ?_ ?_
        · rw [hplace]
          exact ⟨by simp, by simp [Place.isBefore], by simp [Place.isInside],
            by simp [Place.isRecorded]⟩
        · simp [hplace, Place.isServed]
        · rw [hplace]
          cases late with
          | false | true => simp [Place.isLeaving]
        · intro _ remaining heq id hid
          cases heq
          exact ⟨hs.streams id hid, hok id hid⟩
      · cases h
  | notify i full =>
      simp only [step] at h
      split at h
      · rename_i late id remaining hplace
        have hgo : Ordered (s.goTo i (.closing (.notifying late remaining))) := by
          refine hs.advance i (.closing (.notifying late remaining)) (hbooks i _) rfl rfl rfl
            (fun _ hj => hj) (by simp) ?_ ?_ ?_ ?_
          · rw [hplace]
            exact ⟨by simp, by simp [Place.isBefore], by simp [Place.isInside],
              by simp [Place.isRecorded]⟩
          · simp [hplace, Place.isServed]
          · rw [hplace]
            cases late with
            | false | true => simp [Place.isLeaving]
          · intro late' remaining' heq id' hid'
            cases heq
            exact hs.notifying i late _ hplace id' (List.mem_cons_of_mem _ hid')
        split at h <;> cases h
        · exact ⟨hgo.approving, hgo.absent, hgo.before, hgo.inside, hgo.served, hgo.recorded,
            hgo.row, hgo.expiring, hgo.opening,
              fun id hid => hgo.streams id (List.mem_of_mem_erase hid),
            hgo.opened, hgo.notifying, hgo.hostStats, hgo.devenvStatus⟩
        · exact ⟨hgo.approving, hgo.absent, hgo.before, hgo.inside, hgo.served, hgo.recorded,
            hgo.row, hgo.expiring, hgo.opening, hgo.streams, hgo.opened, hgo.notifying,
            hgo.hostStats, hgo.devenvStatus⟩
      · cases h
  | recordDisconnect i now =>
      simp only [step] at h
      split at h
      · rename_i late hplace
        have hon : Onward (s.connection i).place .closed := by
          rw [hplace]
          exact ⟨by simp, by simp [Place.isBefore], by simp [Place.isInside],
            by simp [Place.isRecorded]⟩
        split at h <;> cases h
        · rename_i row hdisconnect
          obtain ⟨old, hold, hdisconnect⟩ := Option.bind_eq_some_iff.mp hdisconnect
          have hnone : ∀ j, row.connectionId ≠ some j := by
            intro j hj
            rw [(disconnect_connectionId hdisconnect).2] at hj
            cases hj
          exact hs.advance i .closed ⟨rfl, rfl, rfl, rfl, rfl, rfl, rfl, fun _ hid => hid⟩ rfl rfl
            rfl (fun j hj => absurd hj (hnone j)) (by simp) hon (by simp [hplace, Place.isServed])
            (fun _ => rfl) (by simp)
        · exact hs.advance i .closed (hbooks i _) rfl rfl rfl (fun _ hj => hj) (by simp) hon
            (by simp [hplace, Place.isServed]) (fun _ => rfl) (by simp)
      · cases h
  | removeExpired i =>
      simp only [step] at h
      split at h <;> cases h
      rename_i hexpired
      obtain ⟨hunnamed, hrecorded⟩ := hs.expiring i hexpired
      have hactive : ∀ j, (if s.active = some i then none else s.active) = some j →
          s.active = some j := by
        intro j hj
        split at hj
        · cases hj
        · exact hj
      refine ⟨hs.approving, hs.absent, hs.before, hs.inside, fun j hj => hs.served j (hactive j hj),
        hs.recorded, ?_, fun j hj => hs.expiring j (List.mem_of_mem_erase hj), hs.opening,
        hs.streams, hs.opened, hs.notifying,
          fun j sample hj => hs.hostStats j sample (hactive j hj),
        fun j sample hj => hs.devenvStatus j sample (hactive j hj)⟩
      intro j hj hpos
      obtain hact | ⟨hnone, hleave⟩ := hs.row j hj hpos
      · left
        -- The row names `j`, so `j` is not the expired connection.
        have hne : s.active ≠ some i := by
          intro hi
          rw [hact] at hi
          cases hi
          exact hunnamed hj
        show (if s.active = some i then none else s.active) = some j
        rw [if_neg hne]
        exact hact
      · right
        refine ⟨?_, hleave⟩
        show (if s.active = some i then none else s.active) = none
        rw [hnone, if_neg (by simp)]
  | lookUpBoot =>
      simp only [step] at h
      obtain ⟨i, hi, rfl⟩ := Option.map_eq_some_iff.mp h
      have hrank : 0 < s.rank i := by
        refine hs.inside i ?_
        have hserved := hs.served i hi
        cases hpl : (s.connection i).place with
        | «open» | beating beat payload | closing r => rfl
        | _ =>
            rw [hpl] at hserved
            cases hserved
      refine ⟨hs.approving, hs.absent, hs.before, hs.inside, hs.served, hs.recorded, hs.row,
        hs.expiring, ?_, hs.streams, hs.opened, hs.notifying, hs.hostStats, hs.devenvStatus⟩
      intro j hj
      obtain rfl | hj := List.mem_cons.mp hj
      · exact hrank
      · exact hs.opening j hj
  | openStream i =>
      simp only [step] at h
      split at h <;> cases h
      rename_i hopening
      obtain ⟨happ, habs, hbef, hins, hserved, hrec, hrow, hexp, hopen, hstr, hopened, hnot,
          hh, hd⟩ :=
        hs
      constructor <;> grind [Function.update_apply, Newer, Control.rowConnection]
  | closeStream id =>
      cases h
      exact ⟨hs.approving, hs.absent, hs.before, hs.inside, hs.served, hs.recorded, hs.row,
        hs.expiring, hs.opening, fun id hid => hs.streams id (List.mem_of_mem_erase hid),
        hs.opened, hs.notifying, hs.hostStats, hs.devenvStatus⟩

/-! ## Late calls -/

/-- The row does not name the connection of a late call. -/
theorem Ordered.not_named {s : Control} (hs : Ordered s) {i : ConnectionId} {late : Bool}
    {remaining : List StreamId}
    (hplace : (s.connection i).place = .closing (.notifying late remaining))
    (hlate : late = true ∨ s.active ≠ none) : s.rowConnection ≠ some i := by
  intro hname
  have hpos := hs.inside i (by rw [hplace]; rfl)
  obtain hact | ⟨hnone, hleave⟩ := hs.row i hname hpos
  · have hserved := hs.served i hact
    rw [hplace] at hserved
    cases hserved
  · obtain rfl | hactive := hlate
    · rw [hplace] at hleave
      cases hleave
    · exact hactive hnone

theorem Ordered.undisturbed {s s' : Control} {a : Action} {i : ConnectionId} (hs : Ordered s)
    (ha : a.closes = some i) (hlate : LateCall s i) (h : step s a = some s') :
    Undisturbed i s s' := by
  cases a with
  | clearActive j =>
      cases ha
      simp only [step] at h
      split at h
      · rename_i hplace
        rw [LateCall, hplace] at hlate
        rw [if_neg hlate] at h
        cases h
        exact ⟨rfl, rfl, rfl, rfl, rfl, fun _ _ => rfl⟩
      · cases h
  | collectStreams j =>
      cases ha
      simp only [step] at h
      split at h <;> cases h
      exact ⟨rfl, rfl, rfl, rfl, rfl, fun _ _ => rfl⟩
  | notify j full =>
      cases ha
      simp only [step] at h
      split at h
      · rename_i late id remaining hplace
        obtain ⟨_, holder⟩ := hs.notifying i late _ hplace id List.mem_cons_self
        split at h <;> cases h
        · exact ⟨rfl, rfl, rfl, rfl, rfl, fun _ _ => rfl⟩
        · refine ⟨rfl, rfl, rfl, rfl, rfl, fun id' hnewer => ?_⟩
          have hne : id' ≠ id := by
            intro heq
            subst heq
            exact holder hnewer
          exact Function.update_of_ne hne _ _
      · cases h
  | recordDisconnect j now =>
      cases ha
      simp only [step] at h
      split at h
      · rename_i late hplace
        rw [LateCall, hplace] at hlate
        have hname := hs.not_named hplace hlate
        split at h
        · rename_i row hdisconnect
          obtain ⟨old, hold, hdisconnect⟩ := Option.bind_eq_some_iff.mp hdisconnect
          refine absurd ?_ hname
          rw [Control.rowConnection, hold]
          exact (disconnect_connectionId hdisconnect).1
        · cases h
          exact ⟨rfl, rfl, rfl, rfl, rfl, fun _ _ => rfl⟩
      · cases h
  | _ => cases ha

theorem Ordered.samplesCurrent {s : Control} (hs : Ordered s) : SamplesCurrent s := by
  intro i hi
  constructor
  · intro sample hsample
    rw [Control.currentHostStats, hi] at hsample
    exact hs.hostStats i sample hi hsample
  · intro sample hsample
    rw [Control.currentDevenvStatus, hi] at hsample
    exact hs.devenvStatus i sample hi hsample

/-! ## Runs -/

theorem ordered_started (nodeId : Uuid) (heartbeatTimeout : Int) {former : Nat}
    {node : Option DevNode} (sessions : List Pty.PtyRow)
    (hformer : ∀ i, node.bind DevNode.connectionId = some i → i < former) :
    Ordered (.started nodeId heartbeatTimeout former node sessions) where
  approving := rfl
  absent i hi := by
    have hle : former ≤ i := hi
    show (if i < former then Place.closed else .absent) = .absent
    rw [if_neg (Nat.not_lt.mpr hle)]
  before _ _ := rfl
  inside i hi := by
    change (if i < former then Place.closed else .absent).isInside = true at hi
    split at hi <;> cases hi
  served _ hi := by cases hi
  recorded i hi := by
    show (if i < former then Place.closed else .absent).isRecorded = true
    rw [if_pos (hformer i hi)]
    rfl
  row _ _ hpos := absurd hpos (Nat.lt_irrefl 0)
  expiring _ hi := by cases hi
  opening _ hi := by cases hi
  streams _ hid := by cases hid
  opened _ hid := absurd hid (Nat.not_lt_zero _)
  notifying i late remaining hi := by
    change (if i < former then Place.closed else .absent) = _ at hi
    split at hi <;> cases hi
  hostStats _ _ hi := by cases hi
  devenvStatus _ _ hi := by cases hi

/-- **A late close disturbs nothing, and the samples are current**, in every run of
registrations, heartbeats, closes, expiries and terminals that meets the condition. The
hypothesis says that the row may only name a connection of an earlier process. -/
theorem late_close_guarded {nodeId : Uuid} {heartbeatTimeout : Int} {former : Nat}
    {node : Option DevNode} {sessions : List Pty.PtyRow} {s : Control}
    (hformer : ∀ i, node.bind DevNode.connectionId = some i → i < former)
    (hrun : Run step Orderly (.started nodeId heartbeatTimeout former node sessions) s) :
    Guarded Orderly s := by
  have hs : Ordered s :=
    hrun.invariant ordered_step (ordered_started nodeId heartbeatTimeout sessions hformer)
  exact ⟨hs.samplesCurrent, fun a i s' ha hlate _ h => hs.undisturbed ha hlate h⟩

/-- The node connects, its heartbeat expires, and it connects again before the first connection
has closed. -/
def reconnected : List Action :=
  [.authenticate ⟨10, none, 1⟩, .record 0 1, .insert 0, .expire 40, .removeExpired 0,
    .authenticate ⟨11, none, 1⟩, .record 1 41, .insert 1, .close 0]

theorem late_close_guarded_after_expiry :
    ∃ s, Run step Orderly pairedControl s ∧ LateCall s 0 ∧ s.active = some 1 ∧
      Guarded Orderly s := by
  have hrun : (runList (restrict step Orderly) pairedControl reconnected).map
      (fun s => ((s.connection 0).place, s.active)) =
        some (.closing .guarded, some 1) := by
    decide +kernel
  obtain ⟨s, hs, hfields⟩ := Option.map_eq_some_iff.mp hrun
  have h := Run.of_restrict _ hs
  obtain ⟨hplace, hactive⟩ := Prod.mk.inj hfields
  refine ⟨s, h, ?_, hactive, late_close_guarded (by simp [pairedNode]) h⟩
  rw [LateCall, hplace]
  show s.active ≠ some 0
  rw [hactive]
  decide

/-- The runs without approvals. -/
def Unapproved (_ : Control) (a : Action) : Prop := a.ofApproval = false

instance : DecidableRel Unapproved := fun _ _ => inferInstanceAs (Decidable (_ = _))

/-- A late close tells a terminal that was opened over the new connection that it has lost its
node. -/
theorem late_close_notifies_new_stream :
    ∃ s, Run step Unapproved pairedControl s ∧ ¬ Guarded Unapproved s := by
  have hrun : (runList (restrict step Unapproved) pairedControl
      (reconnected ++ [.lookUpBoot, .openStream 1, .clearActive 0, .collectStreams 0])).map
        (fun s => ((s.connection 0).place, s.rank 0, s.rank (s.openedOver 0), s.disconnects 0)) =
      some (.closing (.notifying true [0]), 1, 2, 0) := by
    decide +kernel
  obtain ⟨s, hs, hfields⟩ := Option.map_eq_some_iff.mp hrun
  simp only [Prod.mk.injEq] at hfields
  obtain ⟨hplace, hold, hnew, hnone⟩ := hfields
  refine ⟨s, Run.of_restrict _ hs, fun hguarded => ?_⟩
  have hlate : LateCall s 0 := by
    rw [LateCall, hplace]
    exact Or.inl rfl
  have hnewer : Newer s 0 (s.openedOver 0) := by
    rw [Newer, hold, hnew]
    decide
  have hstep : step s (.notify 0 false) = some { s.goTo 0 (.closing (.notifying true [])) with
      disconnects := Function.update s.disconnects 0 (s.disconnects 0 + 1) } := by
    simp only [step, hplace, if_neg (show ¬ false = true by decide)]
  have hkept := (hguarded.2 (.notify 0 false) 0 _ rfl hlate rfl hstep).disconnects 0 hnewer
  dsimp only at hkept
  rw [Function.update_self, hnone] at hkept
  exact absurd hkept (by decide)

end Sulion.Node
