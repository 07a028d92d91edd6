import Sulion.Node.Control

set_option autoImplicit false

/-! # Approval and key replacement

`approve_pairing` makes the offered key the accepted one and then cancels the connection it finds
in the `active` map. A handshake that was authenticated before the approval and enters the map
after the cancellation is not cancelled.
-/

namespace Sulion.Node

open Transition

/-- The accepted public key. -/
def Control.acceptedKey (s : Control) : Option PublicKey := s.node.bind DevNode.publicKey

/-- A handshake between its check and its insertion into the map. -/
def Place.isPending : Place → Bool
  | .checked | .recorded => true
  | _ => false

/-- Once every approval has returned, the connection in the map authenticated with the accepted
key. -/
def OnlyAcceptedKey (s : Control) : Prop :=
  s.approving = 0 → ∀ i, s.active = some i → (s.connection i).key = s.acceptedKey

/-- An approval cancels the active connection when no handshake that authenticated with another
key than the accepted one is still to enter the map. -/
def CancelsLast (s : Control) (a : Action) : Prop :=
  a = .cancelActive → ∀ i < s.connections, (s.connection i).place.isPending = true →
    (s.connection i).key = s.acceptedKey

instance : DecidableRel CancelsLast := fun s a => by
  unfold CancelsLast
  infer_instance

/-! ## The accepted key -/

/-- An internal node has no public key. -/
def KeyFitsKind (node : Option DevNode) : Prop :=
  ∀ row, node = some row → row.credentialKind = .internal → row.publicKey = none

/-- A row with the credential of another. -/
def SameCredential (row row' : DevNode) : Prop :=
  row'.publicKey = row.publicKey ∧ row'.credentialKind = row.credentialKind

theorem heartbeat_credential {row row' : DevNode} {boot : Uuid} {i : ConnectionId}
    {now : Timestamp} (h : row.heartbeat boot i now = some row') : SameCredential row row' := by
  unfold DevNode.heartbeat at h
  split at h <;> cases h
  exact ⟨rfl, rfl⟩

theorem disconnect_credential {row row' : DevNode} {boot : Uuid} {i : ConnectionId}
    {now : Timestamp} (h : row.disconnect boot i now = some row') : SameCredential row row' := by
  unfold DevNode.disconnect at h
  split at h <;> cases h
  exact ⟨rfl, rfl⟩

theorem requestPairing_publicKey (node : Option DevNode) (key : PublicKey) :
    (requestPairing node key).bind DevNode.publicKey = node.bind DevNode.publicKey := by
  unfold requestPairing
  cases node with
  | none => rfl
  | some row =>
      dsimp only
      split <;> rfl

theorem requestPairing_fits {node : Option DevNode} (h : KeyFitsKind node) (key : PublicKey) :
    KeyFitsKind (requestPairing node key) := by
  intro row hrow hkind
  unfold requestPairing at hrow
  cases node with
  | none =>
      cases hrow
      rfl
  | some old =>
      dsimp only at hrow
      split at hrow <;> cases hrow
      · exact h old rfl hkind
      · exact h row rfl hkind

theorem ensureInternalNode_key {node : Option DevNode} {now : Timestamp} {row : DevNode}
    (hfit : KeyFitsKind node) (h : ensureInternalNode node now = some row) :
    row.publicKey = none ∧ node.bind DevNode.publicKey = none := by
  unfold ensureInternalNode at h
  split at h
  · cases h
    exact ⟨rfl, rfl⟩
  · rename_i old
    split at h <;> cases h
    rename_i hkind
    exact ⟨hfit row rfl hkind, hfit row rfl hkind⟩

/-- A hello that needs no approval authenticates with the accepted key. -/
theorem verifiedKey_accepted {node : Option DevNode} {hello : Hello} {key : PublicKey}
    (h : verifiedKey node hello = some key)
    (hoffer : hello.publicKey = none ∨ node.bind DevNode.publicKey = some key) :
    node.bind DevNode.publicKey = some key := by
  obtain hnone | haccepted := hoffer
  · unfold verifiedKey at h
    split at h
    · have hkey := (Option.filter_eq_some_iff.mp h).1
      rw [hnone] at hkey
      exact hkey
    · cases h
  · exact haccepted

/-! ## The invariant -/

/-- The keys of the pending handshakes and of the active connection. -/
structure Paired (s : Control) : Prop where
  absent : ∀ i, s.connections ≤ i → (s.connection i).place = .absent
  bound : ∀ i, s.active = some i → i < s.connections
  fits : KeyFitsKind s.node
  pending : s.approving = 0 → ∀ i, (s.connection i).place.isPending = true →
    (s.connection i).key = s.acceptedKey
  active : OnlyAcceptedKey s

/-- What a step does that neither starts a connection, nor enters one into the map, nor belongs
to an approval. -/
structure Routine (s s' : Control) : Prop where
  connections : s'.connections = s.connections
  approving : s'.approving = s.approving
  accepted : s'.acceptedKey = s.acceptedKey
  fits : KeyFitsKind s.node → KeyFitsKind s'.node
  key : ∀ i, (s'.connection i).key = (s.connection i).key
  absent : ∀ i, (s.connection i).place = .absent → (s'.connection i).place = .absent
  pending : ∀ i, (s'.connection i).place.isPending = true → (s.connection i).place.isPending = true
  active : ∀ i, s'.active = some i → s.active = some i

theorem Paired.routine {s s' : Control} (hs : Paired s) (hr : Routine s s') : Paired s' := by
  refine ⟨?_, ?_, hr.fits hs.fits, ?_, ?_⟩
  · intro i hi
    rw [hr.connections] at hi
    exact hr.absent i (hs.absent i hi)
  · intro i hi
    rw [hr.connections]
    exact hs.bound i (hr.active i hi)
  · intro happ i hi
    rw [hr.approving] at happ
    rw [hr.key, hr.accepted]
    exact hs.pending happ i (hr.pending i hi)
  · intro happ i hi
    rw [hr.approving] at happ
    rw [hr.key, hr.accepted]
    exact hs.active happ i (hr.active i hi)

/-- Connection `i` moves on within the handshake, or out of it. -/
theorem Routine.goTo (s : Control) (i : ConnectionId) (place : Place)
    (habsent : (s.connection i).place ≠ .absent)
    (hpending : place.isPending = true → (s.connection i).place.isPending = true) :
    Routine s (s.goTo i place) := by
  refine ⟨rfl, rfl, rfl, id, fun j => Control.goTo_key s i j place, ?_, ?_, fun j hj => hj⟩
  · intro j hj
    rw [Control.goTo_place]
    split
    · rename_i heq
      subst heq
      exact absurd hj habsent
    · exact hj
  · intro j hj
    rw [Control.goTo_place] at hj
    split at hj
    · rename_i heq
      subst heq
      exact hpending hj
    · exact hj

theorem Routine.setNode {s s' : Control} (h : Routine s s') {row row' : DevNode}
    (hrow : s.node = some row) (hsame : SameCredential row row') :
    Routine s { s' with node := some row' } where
  connections := h.connections
  approving := h.approving
  accepted := by
    show row'.publicKey = s.node.bind DevNode.publicKey
    rw [hrow]
    exact hsame.1
  fits := by
    intro hfits r hr hkind
    cases hr
    rw [hsame.1]
    exact hfits row hrow (hsame.2.symm.trans hkind)
  key := h.key
  absent := h.absent
  pending := h.pending
  active := h.active

theorem Routine.refl (s : Control) : Routine s s :=
  ⟨rfl, rfl, rfl, id, fun _ => rfl, fun _ => id, fun _ => id, fun _ => id⟩

/-- The rest of the state may change, and the map be cleared. -/
theorem Routine.rest {s s' s'' : Control} (h : Routine s s')
    (hconnections : s''.connections = s'.connections) (happroving : s''.approving = s'.approving)
    (hnode : s''.node = s'.node) (hconnection : s''.connection = s'.connection)
    (hactive : ∀ i, s''.active = some i → s'.active = some i) : Routine s s'' where
  connections := hconnections.trans h.connections
  approving := happroving.trans h.approving
  accepted := by
    rw [Control.acceptedKey, hnode]
    exact h.accepted
  fits := by
    rw [hnode]
    exact h.fits
  key := by
    rw [hconnection]
    exact h.key
  absent := by
    rw [hconnection]
    exact h.absent
  pending := by
    rw [hconnection]
    exact h.pending
  active := fun i hi => h.active i (hactive i hi)

/-! ## Steps -/

/-- The actions that start a connection, enter one into the map or belong to an approval. -/
def Action.ofPairing : Action → Bool
  | .authenticate _ | .startLoopback _ _ | .insert _ | .approve _ | .cancelActive => true
  | _ => false

theorem routine_step {s s' : Control} {a : Action} (ha : a.ofPairing = false)
    (h : step s a = some s') : Routine s s' := by
  cases a with
  | requestPairing i =>
      simp only [step] at h
      split at h
      · rename_i key hplace
        cases h
        have hgo := Routine.goTo s i .closed (by simp [hplace])
          (by simp [Place.isPending])
        exact ⟨hgo.connections, hgo.approving, requestPairing_publicKey s.node key,
          fun hfits => requestPairing_fits hfits key, hgo.key, hgo.absent, hgo.pending, hgo.active⟩
      · cases h
  | record i now =>
      simp only [step] at h
      split at h
      · rename_i row hplace hrow
        cases h
        have hgo := Routine.goTo s i .recorded (by simp [hplace])
          (by simp [hplace, Place.isPending])
        exact hgo.setNode hrow ⟨rfl, rfl⟩
      · cases h
  | validate i payload =>
      simp only [step] at h
      split at h
      · rename_i hplace
        split at h <;> cases h <;>
          exact Routine.goTo s i _ (by simp [hplace]) (by simp [Place.isPending])
      · cases h
  | storeHeartbeat i now =>
      simp only [step] at h
      split at h
      · rename_i payload hplace
        split at h
        · rename_i row hbeat
          cases h
          obtain ⟨old, hold, hbeat⟩ := Option.bind_eq_some_iff.mp hbeat
          have hgo := Routine.goTo s i (.beating .stored payload)
            (by simp [hplace]) (by simp [Place.isPending])
          exact (hgo.setNode hold (heartbeat_credential hbeat)).rest rfl rfl rfl rfl fun _ hj => hj
        · cases h
          exact Routine.goTo s i _ (by simp [hplace]) (by simp [Place.isPending])
      · cases h
  | saveHost i | saveDevenv i | close i | collectStreams i =>
      simp only [step] at h
      split at h
      · rename_i hplace
        cases h
        exact (Routine.goTo s i _ (by simp [hplace]) (by simp [Place.isPending])).rest
          rfl rfl rfl rfl fun _ hj => hj
      · cases h
  | clearActive i =>
      simp only [step] at h
      split at h
      · rename_i hplace
        split at h <;> cases h
        · exact (Routine.goTo s i _ (by simp [hplace]) (by simp [Place.isPending])).rest
            rfl rfl rfl rfl (by simp)
        · exact Routine.goTo s i _ (by simp [hplace]) (by simp [Place.isPending])
      · cases h
  | notify i full =>
      simp only [step] at h
      split at h
      · rename_i late id remaining hplace
        have hgo := Routine.goTo s i (.closing (.notifying late remaining))
          (by simp [hplace]) (by simp [Place.isPending])
        split at h <;> cases h <;> exact hgo.rest rfl rfl rfl rfl fun _ hj => hj
      · cases h
  | recordDisconnect i now =>
      simp only [step] at h
      split at h
      · rename_i late hplace
        have hgo := Routine.goTo s i .closed (by simp [hplace])
          (by simp [Place.isPending])
        split at h <;> cases h
        · rename_i row hdisconnect
          obtain ⟨old, hold, hdisconnect⟩ := Option.bind_eq_some_iff.mp hdisconnect
          exact (hgo.setNode hold (disconnect_credential hdisconnect)).rest rfl rfl rfl rfl
            fun _ hj => hj
        · exact hgo
      · cases h
  | expire now =>
      simp only [step] at h
      split at h
      · rename_i row hrow
        split at h
        · split at h <;> cases h
          rename_i hdisconnect
          exact ((Routine.refl s).setNode hrow (disconnect_credential hdisconnect)).rest
            rfl rfl rfl rfl fun _ hj => hj
        · cases h
      · cases h
  | removeExpired i =>
      simp only [step] at h
      split at h <;> cases h
      refine (Routine.refl s).rest rfl rfl rfl rfl ?_
      intro j hj
      dsimp only at hj
      split at hj
      · cases hj
      · exact hj
  | lookUpBoot =>
      simp only [step] at h
      obtain ⟨i, _, rfl⟩ := Option.map_eq_some_iff.mp h
      exact (Routine.refl s).rest rfl rfl rfl rfl fun _ hj => hj
  | openStream i =>
      simp only [step] at h
      split at h <;> cases h
      exact (Routine.refl s).rest rfl rfl rfl rfl fun _ hj => hj
  | closeStream id =>
      cases h
      exact (Routine.refl s).rest rfl rfl rfl rfl fun _ hj => hj
  | _ => cases ha

/-- A new connection at `place`; if it is pending, it has the accepted key. -/
theorem Paired.connect {s : Control} (hs : Paired s) (boot : Uuid) (key : Option PublicKey)
    (place : Place) (hkey : place.isPending = true → key = s.acceptedKey) :
    Paired (s.connect boot key place) := by
  have hold : ∀ i, i ≠ s.connections →
      (s.connect boot key place).connection i = s.connection i := by
    intro i hi
    simp [Control.connect, hi]
  have hnew : (s.connect boot key place).connection s.connections = ⟨boot, key, place⟩ := by
    simp [Control.connect]
  refine ⟨?_, ?_, hs.fits, ?_, ?_⟩
  · intro i hi
    have hle : s.connections + 1 ≤ i := hi
    rw [hold i (by omega)]
    exact hs.absent i (by omega)
  · intro i hi
    exact (hs.bound i hi).trans (Nat.lt_succ_self _)
  · intro happ i hi
    by_cases heq : i = s.connections
    · subst heq
      rw [hnew] at hi ⊢
      exact hkey hi
    · rw [hold i heq] at hi ⊢
      exact hs.pending happ i hi
  · intro happ i hi
    have hlt : i < s.connections := hs.bound i hi
    rw [hold i hlt.ne]
    exact hs.active happ i hi

theorem paired_step : Preserved step CancelsLast Paired := by
  intro s a s' hs hok h
  cases a with
  | authenticate hello =>
      simp only [step] at h
      split at h
      · rename_i key hkey
        split at h <;> cases h
        · rename_i hoffer
          exact hs.connect _ _ _ fun _ => (verifiedKey_accepted hkey hoffer).symm
        · exact hs.connect _ _ _ fun hp => by cases hp
      · cases h
  | startLoopback boot now =>
      simp only [step] at h
      split at h
      · rename_i row hrow
        cases h
        obtain ⟨hnew, hold⟩ := ensureInternalNode_key hs.fits hrow
        have hp := hs.connect boot none .checked fun _ => hold.symm
        have haccepted :
            Control.acceptedKey { s.connect boot none .checked with node := some row } =
            (s.connect boot none .checked).acceptedKey := hnew.trans hold.symm
        refine ⟨hp.absent, hp.bound, ?_, ?_, ?_⟩
        · intro r hr _
          cases hr
          exact hnew
        · intro happ i hi
          rw [haccepted]
          exact hp.pending happ i hi
        · intro happ i hi
          rw [haccepted]
          exact hp.active happ i hi
      · cases h
  | insert i =>
      simp only [step] at h
      split at h
      · rename_i hplace
        cases h
        have hlt : i < s.connections := by
          by_contra hge
          rw [hs.absent i (Nat.le_of_not_lt hge)] at hplace
          cases hplace
        refine ⟨?_, ?_, hs.fits, ?_, ?_⟩
        · intro j hj
          show ((s.goTo i .open).connection j).place = .absent
          have hj' : s.connections ≤ j := hj
          rw [Control.goTo_place, if_neg (hlt.trans_le hj').ne']
          exact hs.absent j hj
        · intro j hj
          cases hj
          exact hlt
        · intro happ j hj
          show ((s.goTo i .open).connection j).key = s.acceptedKey
          have hj' : ((s.goTo i .open).connection j).place.isPending = true := hj
          rw [Control.goTo_place] at hj'
          split at hj'
          · cases hj'
          · rw [Control.goTo_key]
            exact hs.pending happ j hj'
        · intro happ j hj
          cases hj
          show ((s.goTo i .open).connection i).key = s.acceptedKey
          rw [Control.goTo_key]
          exact hs.pending happ i (by rw [hplace]; rfl)
      · cases h
  | approve now =>
      simp only [step] at h
      split at h
      · rename_i row hrow
        cases h
        obtain ⟨old, hold, hrow⟩ := Option.bind_eq_some_iff.mp hrow
        unfold DevNode.approvePairing at hrow
        split at hrow <;> cases hrow
        rename_i hkind
        refine ⟨hs.absent, hs.bound, ?_, ?_, ?_⟩
        · intro r hr hinternal
          cases hr
          rw [hkind.1] at hinternal
          cases hinternal
        · intro happ
          cases happ
        · intro happ
          cases happ
      · cases h
  | cancelActive =>
      simp only [step] at h
      split at h
      · -- With the map empty, what enters it later is what is pending now.
        have hall : ∀ i, (s.connection i).place.isPending = true →
            (s.connection i).key = s.acceptedKey := by
          intro i hi
          by_cases hlt : i < s.connections
          · exact hok rfl i hlt hi
          · rw [hs.absent i (Nat.le_of_not_lt hlt)] at hi
            cases hi
        split at h
        · cases h
          exact ⟨hs.absent, by simp, hs.fits, fun _ => hall, fun _ i hi => by cases hi⟩
        · rename_i hnone
          cases h
          refine ⟨hs.absent, hs.bound, hs.fits, fun _ => hall, fun _ i hi => ?_⟩
          rw [hnone] at hi
          cases hi
      · cases h
  | _ => exact hs.routine (routine_step rfl h)

/-! ## Runs -/

theorem paired_started (nodeId : Uuid) (heartbeatTimeout : Int) (former : Nat)
    {node : Option DevNode} (sessions : List Pty.PtyRow) (hfits : KeyFitsKind node) :
    Paired (.started nodeId heartbeatTimeout former node sessions) where
  absent i hi := by
    have hle : former ≤ i := hi
    show (if i < former then Place.closed else .absent) = .absent
    rw [if_neg (Nat.not_lt.mpr hle)]
  bound _ hi := by cases hi
  fits := hfits
  pending _ i hi := by
    change (if i < former then Place.closed else .absent).isPending = true at hi
    split at hi <;> cases hi
  active _ _ hi := by cases hi

/-- **Only the accepted key stays connected**, in every run in which an approval cancels the
active connection after the handshakes under other keys have entered the map. The hypothesis on
the row is a check constraint of the table. -/
theorem only_accepted_key {nodeId : Uuid} {heartbeatTimeout : Int} {former : Nat}
    {node : Option DevNode} {sessions : List Pty.PtyRow} {s : Control} (hfits : KeyFitsKind node)
    (hrun : Run step CancelsLast (.started nodeId heartbeatTimeout former node sessions) s) :
    OnlyAcceptedKey s :=
  (hrun.invariant paired_step
    (paired_started nodeId heartbeatTimeout former sessions hfits)).active

/-- The node connects under key 1, then offers key 2. -/
def rekeyed : List Action :=
  [.authenticate ⟨10, none, 1⟩, .record 0 1, .insert 0, .authenticate ⟨11, some 2, 2⟩,
    .requestPairing 1]

theorem only_accepted_key_after_approval :
    ∃ s, Run step CancelsLast pairedControl s ∧ s.active = some 2 ∧ s.acceptedKey = some 2 ∧
      OnlyAcceptedKey s := by
  have hrun : (runList (restrict step CancelsLast) pairedControl
      (rekeyed ++ [.approve 2, .cancelActive, .authenticate ⟨12, some 2, 2⟩, .record 2 3,
        .insert 2])).map (fun s => (s.active, s.acceptedKey)) = some (some 2, some 2) := by
    decide +kernel
  obtain ⟨s, hs, hfields⟩ := Option.map_eq_some_iff.mp hrun
  have h := Run.of_restrict _ hs
  rw [Prod.mk.injEq] at hfields
  exact ⟨s, h, hfields.1, hfields.2, only_accepted_key (by simp [KeyFitsKind, pairedNode]) h⟩

/-- A handshake authenticated under the replaced key enters the map after the cancellation. -/
theorem replaced_key_connected :
    ∃ s, Run step anyStep pairedControl s ∧ ¬ OnlyAcceptedKey s := by
  have hrun : (runList step pairedControl
      (rekeyed ++ [.authenticate ⟨12, none, 1⟩, .approve 2, .cancelActive, .record 2 3,
        .insert 2])).map
        (fun s => (s.approving, s.active, (s.connection 2).key, s.acceptedKey)) =
      some (0, some 2, some 1, some 2) := by
    decide +kernel
  obtain ⟨s, hs, hfields⟩ := Option.map_eq_some_iff.mp hrun
  simp only [Prod.mk.injEq] at hfields
  obtain ⟨happ, hactive, hkey, haccepted⟩ := hfields
  refine ⟨s, Run.of_runList _ hs, fun honly => ?_⟩
  have heq := honly happ 2 hactive
  rw [hkey, haccepted] at heq
  exact absurd heq (by decide)

end Sulion.Node
