import Sulion.Basic
import Sulion.Lib.Transition

set_option autoImplicit false

/-! # Signing out everywhere

The broker keeps one cutoff per principal: a login counts when its `auth_time` is later. A request
to sign out is checked against the cutoff with its own token, and sets the cutoff to the clock in a
statement of its own; several requests of a principal, copies of one among them, can be between
these steps at once.

`revocations_sound_iff` says which of these statements move the cutoff for a token that is still
allowed. A copy that was checked before another revocation landed cuts off a login that was made in
between (`delayedCopy_not_sound`).
-/

namespace Sulion.Revocation

open Transition

/-! ## The broker -/

/-- What a token says of its login; the principal is fixed. -/
structure Authority where
  authTime : Int
  expiresAt : Int
  deriving DecidableEq

def allowed (cutoff : Option Int) (now : Timestamp) (authority : Authority) : Bool :=
  if authority.expiresAt ≤ now.seconds then false
  else cutoff.all fun revokedBefore => decide (revokedBefore < authority.authTime)

/-- The row of `browser_revocations` after the statement of `revoke`. -/
def revoke (cutoff : Option Int) (now : Timestamp) : Int :=
  match cutoff with
  | none => now.seconds
  | some revokedBefore => max revokedBefore now.seconds

/-- A request that passed `require_user_auth`, after `checkedAfter` revocations had landed. -/
structure Flight where
  authority : Authority
  checkedAfter : Nat

/-- A revocation that landed, with the cutoff it found. -/
structure Landed where
  authority : Authority
  checkedAfter : Nat
  landedAt : Timestamp
  found : Option Int
  deriving DecidableEq

structure Broker where
  clock : Timestamp
  cutoff : Option Int
  logins : List Authority
  flights : List Flight
  landed : List Landed

def Broker.new (clock : Timestamp) : Broker := ⟨clock, none, [], [], []⟩

inductive Action
  | login (expiresAt : Int)
  /-- `POST /v1/session/revoke` with the token of a login. -/
  | request (authority : Authority)
  /-- The handler's statement. -/
  | land (flight : Nat)

/-- The action, on a broker whose clock shows `now`. -/
def act (s : Broker) (now : Timestamp) : Action → Option Broker
  | .login expiresAt => some { s with logins := s.logins ++ [⟨now.seconds, expiresAt⟩] }
  | .request authority =>
      if authority ∈ s.logins then
        -- Without a flight the answer is `204` as well.
        if allowed s.cutoff now authority then
          some { s with flights := s.flights ++ [⟨authority, s.landed.length⟩] }
        else some s
      else none
  | .land i =>
      match s.flights[i]? with
      | some flight => some { s with
          cutoff := some (revoke s.cutoff now)
          flights := s.flights.eraseIdx i
          landed := s.landed ++ [⟨flight.authority, flight.checkedAfter, now, s.cutoff⟩] }
      | none => none

/-- The clock does not go back. -/
def step (s : Broker) (a : Timestamp × Action) : Option Broker :=
  if s.clock ≤ a.1 then act { s with clock := a.1 } a.1 a.2 else none

/-! ## What a revocation may do -/

/-- The cutoff moves only for a token that is allowed then, and a revoked token leaves every login
after the cutoff alone. -/
structure Landed.Sound (e : Landed) : Prop where
  moves : e.found ≠ some (revoke e.found e.landedAt) → allowed e.found e.landedAt e.authority = true
  laterLogin : ∀ cutoff, e.found = some cutoff → e.authority.authTime ≤ cutoff →
    ∀ authTime, cutoff < authTime → revoke e.found e.landedAt < authTime

/-- Since the check of the `k`-th revocation no other one landed and its token has not expired; or
an earlier one landed in the same second. -/
def InTime (landed : List Landed) (k : Nat) (e : Landed) : Prop :=
  (e.checkedAfter = k ∧ e.landedAt.seconds < e.authority.expiresAt) ∨
    ∃ earlier ∈ landed.take k, earlier.landedAt.seconds = e.landedAt.seconds

/-! ## The invariant -/

/-- The cutoff is the latest of the landed revocations, and one that landed since a request's check
landed after that request's login. -/
structure Inv (s : Broker) : Prop where
  past : ∀ e ∈ s.landed, e.landedAt ≤ s.clock
  login : ∀ authority ∈ s.logins, authority.authTime ≤ s.clock.seconds
  cutoff : ∀ (k : Nat) (e : Landed), s.landed[k]? = some e →
    ∃ revokedBefore, s.cutoff = some revokedBefore ∧ e.landedAt.seconds ≤ revokedBefore
  attained : ∀ revokedBefore, s.cutoff = some revokedBefore →
    ∃ e ∈ s.landed, e.landedAt.seconds = revokedBefore
  flight : ∀ flight ∈ s.flights, flight.checkedAfter ≤ s.landed.length ∧
    (∀ e ∈ s.landed.take flight.checkedAfter, e.landedAt.seconds < flight.authority.authTime) ∧
    (∀ e ∈ s.landed.drop flight.checkedAfter, flight.authority.authTime ≤ e.landedAt.seconds) ∧
    flight.authority.authTime ≤ s.clock.seconds
  sound : ∀ (k : Nat) (e : Landed), s.landed[k]? = some e → (e.Sound ↔ InTime s.landed k e)

variable {s t : Broker}

theorem Inv.new (clock : Timestamp) : Inv (.new clock) := by
  constructor <;> simp [Broker.new]

theorem allowed_iff {cutoff : Option Int} {now : Timestamp} {authority : Authority} :
    allowed cutoff now authority = true ↔
      now.seconds < authority.expiresAt ∧
        ∀ revokedBefore, cutoff = some revokedBefore → revokedBefore < authority.authTime := by
  rw [allowed]
  split
  · simp_all
  · rename_i hlive
    cases cutoff <;> simp_all

theorem seconds_mono {a b : Timestamp} (h : a ≤ b) : a.seconds ≤ b.seconds :=
  Int.ediv_le_ediv (by decide) h

/-- A later login stays when a revoked token does not move the cutoff. -/
theorem Landed.sound_iff {e : Landed} :
    e.Sound ↔ (∃ cutoff, e.found = some cutoff ∧ e.landedAt.seconds ≤ cutoff) ∨
      allowed e.found e.landedAt e.authority = true := by
  have hstays : e.found = some (revoke e.found e.landedAt) ↔
      ∃ cutoff, e.found = some cutoff ∧ e.landedAt.seconds ≤ cutoff := by
    cases e.found with
    | none => simp
    | some cutoff => simp [revoke]
  constructor
  · intro h
    by_cases hfound : e.found = some (revoke e.found e.landedAt)
    · exact .inl (hstays.mp hfound)
    · exact .inr (h.moves hfound)
  · intro h
    refine ⟨fun hmoves => h.resolve_left fun hle => hmoves (hstays.mpr hle), ?_⟩
    intro cutoff hfound hrevoked authTime hlater
    have hle : e.landedAt.seconds ≤ cutoff := by
      rcases h with ⟨c, hc, hle⟩ | hallowed
      · cases hc.symm.trans hfound
        exact hle
      · exact absurd ((allowed_iff.mp hallowed).2 cutoff hfound) (not_lt.mpr hrevoked)
    rw [hfound, revoke, max_eq_left hle]
    exact hlater

theorem Inv.tick (hinv : Inv s) {now : Timestamp} (hnow : s.clock ≤ now) :
    Inv { s with clock := now } where
  past := fun e he => (hinv.past e he).trans hnow
  login := fun authority h => (hinv.login authority h).trans (seconds_mono hnow)
  cutoff := hinv.cutoff
  attained := hinv.attained
  flight := fun flight h => by
    obtain ⟨hlength, hbefore, hsince, hlogin⟩ := hinv.flight flight h
    exact ⟨hlength, hbefore, hsince, hlogin.trans (seconds_mono hnow)⟩
  sound := hinv.sound

/-- A request is let through that no landed revocation concerns. -/
theorem Inv.request (hinv : Inv s) {authority : Authority} (hlogin : authority ∈ s.logins)
    (hallowed : allowed s.cutoff s.clock authority = true) :
    Inv { s with flights := s.flights ++ [⟨authority, s.landed.length⟩] } := by
  refine { hinv with flight := fun flight h => ?_ }
  rcases List.mem_append.mp h with hold | hnew
  · exact hinv.flight flight hold
  · obtain rfl := List.mem_singleton.mp hnew
    refine ⟨le_rfl, fun e he => ?_, by simp, hinv.login authority hlogin⟩
    obtain ⟨k, hk⟩ := List.mem_iff_getElem?.mp (List.mem_of_mem_take he)
    obtain ⟨cutoff, hcutoff, hle⟩ := hinv.cutoff k e hk
    exact hle.trans_lt ((allowed_iff.mp hallowed).2 cutoff hcutoff)

theorem inTime_append {landed : List Landed} {e last : Landed} {k : Nat} (hk : k ≤ landed.length) :
    InTime (landed ++ [last]) k e ↔ InTime landed k e := by
  rw [InTime, InTime, List.take_append_of_le_length hk]

/-- The revocation that lands is sound if it is in time. -/
theorem Inv.sound_land (hinv : Inv s) {flight : Flight} (hflight : flight ∈ s.flights) :
    Landed.Sound ⟨flight.authority, flight.checkedAfter, s.clock, s.cutoff⟩ ↔
      InTime s.landed s.landed.length
        ⟨flight.authority, flight.checkedAfter, s.clock, s.cutoff⟩ := by
  obtain ⟨hlength, hbefore, hsince, -⟩ := hinv.flight flight hflight
  have hsame : (∃ cutoff, s.cutoff = some cutoff ∧ s.clock.seconds ≤ cutoff) ↔
      ∃ earlier ∈ s.landed.take s.landed.length, earlier.landedAt.seconds = s.clock.seconds := by
    rw [List.take_length]
    constructor
    · rintro ⟨cutoff, hcutoff, hle⟩
      obtain ⟨e, he, rfl⟩ := hinv.attained cutoff hcutoff
      exact ⟨e, he, le_antisymm (seconds_mono (hinv.past e he)) hle⟩
    · rintro ⟨e, he, hsame⟩
      obtain ⟨k, hk⟩ := List.mem_iff_getElem?.mp he
      obtain ⟨cutoff, hcutoff, hle⟩ := hinv.cutoff k e hk
      exact ⟨cutoff, hcutoff, hsame ▸ hle⟩
  have hnone : (∀ cutoff, s.cutoff = some cutoff → cutoff < flight.authority.authTime) ↔
      flight.checkedAfter = s.landed.length := by
    constructor
    · intro hkept
      by_contra hne
      -- the first revocation that landed since the check is later than the login
      have hlt : flight.checkedAfter < s.landed.length := lt_of_le_of_ne hlength hne
      obtain ⟨cutoff, hcutoff, hle⟩ :=
        hinv.cutoff flight.checkedAfter _ (List.getElem?_eq_getElem hlt)
      have hmem : s.landed[flight.checkedAfter] ∈ s.landed.drop flight.checkedAfter := by
        rw [List.drop_eq_getElem_cons hlt]
        exact List.mem_cons_self
      exact absurd ((hsince _ hmem).trans hle) (not_le.mpr (hkept cutoff hcutoff))
    · intro hall cutoff hcutoff
      obtain ⟨e, he, rfl⟩ := hinv.attained cutoff hcutoff
      exact hbefore e (by rwa [hall, List.take_length])
  rw [Landed.sound_iff, allowed_iff, InTime, hsame, hnone, or_comm, and_comm]

theorem Inv.land (hinv : Inv s) {i : Nat} {flight : Flight}
    (hflight : s.flights[i]? = some flight) :
    Inv { s with
      cutoff := some (revoke s.cutoff s.clock)
      flights := s.flights.eraseIdx i
      landed := s.landed ++ [⟨flight.authority, flight.checkedAfter, s.clock, s.cutoff⟩] } := by
  have hle : ∀ cutoff, s.cutoff = some cutoff → cutoff ≤ revoke s.cutoff s.clock := by
    intro cutoff hcutoff
    rw [hcutoff, revoke]
    exact le_max_left _ _
  have hnow : s.clock.seconds ≤ revoke s.cutoff s.clock := by
    unfold revoke
    split
    · exact le_rfl
    · exact le_max_right _ _
  constructor
  -- the cutoff only grows, and it is that of the last landing or of one before
  · intro e he
    rcases List.mem_append.mp he with hold | hnew
    · exact hinv.past e hold
    · rw [List.mem_singleton.mp hnew]
  · exact hinv.login
  · intro k e hk
    refine ⟨_, rfl, ?_⟩
    rcases List.mem_append.mp (List.mem_of_getElem? hk) with hold | hnew
    · obtain ⟨k', hk'⟩ := List.mem_iff_getElem?.mp hold
      obtain ⟨cutoff, hcutoff, hearlier⟩ := hinv.cutoff k' e hk'
      exact hearlier.trans (hle cutoff hcutoff)
    · rw [List.mem_singleton.mp hnew]
      exact hnow
  · rintro _ ⟨⟩
    cases hcutoff : s.cutoff with
    | none => exact ⟨_, List.mem_append_right _ (List.mem_singleton_self _), rfl⟩
    | some cutoff =>
        rw [revoke]
        rcases le_total cutoff s.clock.seconds with hlater | hearlier
        · rw [max_eq_right hlater]
          exact ⟨_, List.mem_append_right _ (List.mem_singleton_self _), rfl⟩
        · rw [max_eq_left hearlier]
          obtain ⟨e, he, hsame⟩ := hinv.attained cutoff hcutoff
          exact ⟨e, List.mem_append_left _ he, hsame⟩
  · intro other hother
    obtain ⟨hlength, hbefore, hsince, hlogin⟩ :=
      hinv.flight other ((List.eraseIdx_sublist _ _).subset hother)
    refine ⟨by simp only [List.length_append]; omega, ?_, ?_, hlogin⟩
    · rwa [List.take_append_of_le_length hlength]
    · rw [List.drop_append_of_le_length hlength]
      intro e he
      rcases List.mem_append.mp he with hold | hnew
      · exact hsince e hold
      · rw [List.mem_singleton.mp hnew]
        exact hlogin
  · intro k e hk
    -- the new landing is the only one that was not judged before
    by_cases hlast : k < s.landed.length
    · rw [List.getElem?_append_left hlast] at hk
      rw [inTime_append hlast.le]
      exact hinv.sound k e hk
    · have hklength : k = s.landed.length := by
        have hbound := (List.getElem?_eq_some_iff.mp hk).1
        simp only [List.length_append, List.length_singleton] at hbound
        omega
      subst hklength
      simp only [List.getElem?_append_right le_rfl, Nat.sub_self, List.getElem?_cons_zero,
        Option.some.injEq] at hk
      subst hk
      rw [inTime_append le_rfl]
      exact hinv.sound_land (List.mem_of_getElem? hflight)

theorem inv_step : Preserved step anyStep Inv := by
  rintro s ⟨now, action⟩ t hinv - hstep
  rw [step] at hstep
  split at hstep
  swap
  · cases hstep
  rename_i hnow
  have hticked := hinv.tick hnow
  cases action with
  | login expiresAt =>
      cases hstep
      refine { hticked with login := fun authority h => ?_ }
      rcases List.mem_append.mp h with hold | hnew
      · exact hticked.login authority hold
      · rw [List.mem_singleton.mp hnew]
  | request authority =>
      simp only [act] at hstep
      split at hstep
      swap
      · cases hstep
      rename_i hlogin
      split at hstep
      · rename_i hallowed
        cases hstep
        exact hticked.request hlogin hallowed
      · cases hstep
        exact hticked
  | land i =>
      simp only [act] at hstep
      split at hstep
      · rename_i flight hflight
        cases hstep
        exact hticked.land hflight
      · cases hstep

/-- **Which revocations cut off no later login.** In every run they are those that land before
another one does since their check and before their token expires, and those that land in the same
second as an earlier one. -/
theorem revocations_sound_iff {clock : Timestamp} (hrun : Run step anyStep (.new clock) s) :
    (∀ e ∈ s.landed, e.Sound) ↔
      ∀ (k : Nat) (e : Landed), s.landed[k]? = some e → InTime s.landed k e := by
  have hinv : Inv s := hrun.invariant inv_step (Inv.new clock)
  constructor
  · intro h k e hk
    exact (hinv.sound k e hk).mp (h e (List.mem_of_getElem? hk))
  · intro h e he
    obtain ⟨k, hk⟩ := List.mem_iff_getElem?.mp he
    exact (hinv.sound k e hk).mpr (h k e hk)

section Examples

/-- The first seconds after the epoch. -/
def second (n : Int) : Timestamp := n * 1000000

/-- A login signs out once. -/
def signOut : List (Timestamp × Action) :=
  [(second 1, .login 3600), (second 2, .request ⟨1, 3600⟩), (second 2, .land 0)]

/-- A copy of the request is checked with it and lands after the next login. -/
def delayedCopy : List (Timestamp × Action) :=
  [(second 1, .login 3600), (second 2, .request ⟨1, 3600⟩), (second 2, .request ⟨1, 3600⟩),
    (second 2, .land 0), (second 5, .login 3605), (second 9, .land 0)]

def after (actions : List (Timestamp × Action)) : Broker :=
  (runList step (.new 0) actions).getD (.new 0)

theorem revocations_sound_iff_signOut :
    (after signOut).landed = [⟨⟨1, 3600⟩, 0, second 2, none⟩] ∧
      ∀ e ∈ (after signOut).landed, e.Sound := by
  have hrun : Run step anyStep (.new 0) (after signOut) := Run.of_runList signOut rfl
  have hlanded : (after signOut).landed = [⟨⟨1, 3600⟩, 0, second 2, none⟩] := rfl
  refine ⟨hlanded, (revocations_sound_iff hrun).mpr fun k e hk => ?_⟩
  rw [hlanded] at hk
  cases k with
  | zero =>
      cases hk
      exact .inl ⟨rfl, by decide⟩
  | succ k => simp at hk

/-- The copy carries a revoked token, and the second login is no longer allowed. -/
theorem delayedCopy_not_sound :
    Run step anyStep (.new 0) (after delayedCopy) ∧
      (∃ e ∈ (after delayedCopy).landed, ¬ e.Sound) ∧
      ⟨5, 3605⟩ ∈ (after delayedCopy).logins ∧
      allowed (after delayedCopy).cutoff (after delayedCopy).clock ⟨5, 3605⟩ = false := by
  refine ⟨Run.of_runList delayedCopy rfl, ⟨⟨⟨1, 3600⟩, 0, second 9, some 2⟩, by decide, ?_⟩,
    by decide, by decide⟩
  intro h
  exact absurd (h.moves (by decide)) (by decide)

end Examples

end Sulion.Revocation
