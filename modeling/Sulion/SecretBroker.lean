import Sulion.Lib.Transition
import Sulion.Basic
import Sulion.Rust.Text

set_option autoImplicit false

/-! # Signed secret-use requests

A PTY signs each request with its own key, a timestamp and a nonce. The broker checks the
timestamp against its clock and the signature against the registered key, then deletes the
nonces seen more than five minutes ago and inserts the new one, each in a statement of its own;
several requests can be between these steps at once.

`requests_used_once` is what holds in every run. A signed request, so one terminal, nonce and
timestamp, does not pass a second time, unless the second one stays between its check and its
insert for about as long as nonces are kept beyond the window; and what passes is at most a
minute off. The theorem leaves out a timestamp that is `2 ^ 63` seconds off, whose distance
overflows to a negative number. A nonce that is signed again with a later timestamp is another
request, which passes when the first one's row is gone (`nonce_passes_again`).
-/

namespace Sulion.SecretBroker

open Rust Transition

/-! ## Requests -/

structure SignedUseSecretRequest where
  ptySessionId : Uuid
  program : String
  timestampUnixSeconds : Int
  nonce : String
  signature : String
  isI64 : i64Min ≤ timestampUnixSeconds ∧ timestampUnixSeconds ≤ i64Max

/-- What the broker uses of other packages: how a UUID is printed, base64 and Ed25519. -/
structure Crypto where
  uuidText : Uuid → String
  base64Decode : String → Option (List UInt8)
  ed25519Verify : List UInt8 → String → List UInt8 → Bool

def canonicalUsePayload (crypto : Crypto) (body : SignedUseSecretRequest) : String :=
  "sulion-secret-use-v2\n" ++ crypto.uuidText body.ptySessionId ++ "\n" ++ body.program ++ "\n" ++
    toString body.timestampUnixSeconds ++ "\n" ++ body.nonce ++ "\n"

/-- A row of `pty_credentials`. -/
structure Credential where
  publicKey : String
  revoked : Bool

/-- `(timestamp - now).abs()` on `i64`. -/
def distance (timestamp now : Int) : Int := wrapI64 |wrapI64 (timestamp - now)|

/-- `verify_signed_use_request` up to the nonce table; an error keeps its message. -/
def checkRequest (crypto : Crypto) (credentials : Uuid → Option Credential) (now : Timestamp)
    (body : SignedUseSecretRequest) : Except String Unit :=
  if (trim body.nonce).isEmpty ∨ 128 < body.nonce.utf8ByteSize then .error "invalid nonce"
  else if 60 < distance body.timestampUnixSeconds now.seconds then .error "stale secret-use request"
  else
    match (credentials body.ptySessionId).filter (!·.revoked) with
    | none => .error "unknown PTY credential"
    | some row =>
        match crypto.base64Decode row.publicKey, crypto.base64Decode body.signature with
        | none, _ => .error "invalid registered PTY key"
        | some _, none => .error "invalid request signature"
        | some publicKey, some signature =>
            if crypto.ed25519Verify publicKey (canonicalUsePayload crypto body) signature
              then .ok ()
            else .error "invalid request signature"

/-! ## The broker -/

/-- A row of `pty_use_nonces`. -/
structure NonceRow where
  ptySessionId : Uuid
  nonce : String
  seenAt : Timestamp

/-- The rows of this request's nonce. -/
def NonceRow.of (row : NonceRow) (body : SignedUseSecretRequest) : Bool :=
  decide (row.ptySessionId = body.ptySessionId ∧ row.nonce = body.nonce)

/-- A request that passed its checks at `checkedAt`, before or after its `DELETE`. -/
structure Flight where
  body : SignedUseSecretRequest
  checkedAt : Timestamp
  pruned : Bool

/-- A request that was verified. -/
structure Passed where
  body : SignedUseSecretRequest
  checkedAt : Timestamp
  insertedAt : Timestamp

structure Broker where
  clock : Timestamp
  credentials : Uuid → Option Credential
  nonces : List NonceRow
  flights : List Flight
  passed : List Passed

def Broker.new (clock : Timestamp) : Broker := ⟨clock, fun _ => none, [], [], []⟩

inductive Action
  | register (ptySessionId : Uuid) (publicKey : String)
  | revoke (ptySessionId : Uuid)
  | receive (body : SignedUseSecretRequest)
  | prune (flight : Nat)
  | insert (flight : Nat)

/-- `INTERVAL '5 minutes'`. -/
def nonceRetention : Int := 300 * 1000000

/-- `DateTime::<Utc>::MIN_UTC` and `MAX_UTC`, in seconds. -/
def minUtc : Int := -8334601228800

def maxUtc : Int := 8210266876799

/-- The action, on a broker whose clock shows `now`. -/
def act (crypto : Crypto) (s : Broker) (now : Timestamp) : Action → Option Broker
  | .register pty publicKey =>
      some { s with credentials := Function.update s.credentials pty (some ⟨publicKey, false⟩) }
  | .revoke pty =>
      some { s with
        credentials := Function.update s.credentials pty
          ((s.credentials pty).map fun row => { row with revoked := true }) }
  | .receive body =>
      match checkRequest crypto s.credentials now body with
      | .error _ => some s
      | .ok _ => some { s with flights := s.flights ++ [⟨body, now, false⟩] }
  | .prune i =>
      match s.flights[i]? with
      | some ⟨body, checkedAt, false⟩ => some { s with
          nonces := s.nonces.filter fun row => !decide (row.seenAt < now - nonceRetention)
          flights := s.flights.set i ⟨body, checkedAt, true⟩ }
      | _ => none
  | .insert i =>
      match s.flights[i]? with
      | some ⟨body, checkedAt, true⟩ =>
          let s := { s with flights := s.flights.eraseIdx i }
          -- `ON CONFLICT DO NOTHING`: without a row inserted the request is a replay.
          if s.nonces.any (·.of body) then some s
          else some { s with
            nonces := s.nonces ++ [⟨body.ptySessionId, body.nonce, now⟩]
            passed := s.passed ++ [⟨body, checkedAt, now⟩] }
      | _ => none

/-- The clock does not go back, and stays in the range of `DateTime<Utc>`. -/
def brokerStep (crypto : Crypto) (s : Broker) (a : Timestamp × Action) : Option Broker :=
  if s.clock ≤ a.1 ∧ minUtc ≤ a.1.seconds ∧ a.1.seconds ≤ maxUtc then
    act crypto { s with clock := a.1 } a.1 a.2
  else none

/-- Two requests of one terminal, nonce and timestamp. -/
def SameRequest (a b : SignedUseSecretRequest) : Prop :=
  a.ptySessionId = b.ptySessionId ∧ a.nonce = b.nonce ∧
    a.timestampUnixSeconds = b.timestampUnixSeconds

/-- The insert follows the check within the time nonces are kept beyond the window. -/
def Passed.Prompt (p : Passed) : Prop := p.insertedAt ≤ p.checkedAt + 179 * 1000000

variable {crypto : Crypto} {s s' : Broker} {body : SignedUseSecretRequest} {now : Timestamp}

/-! ## The window -/

/-- **When the distance is short.** It is the true distance, but for one that overflows. -/
theorem distance_le_iff {timestamp seconds : Int} (hi64 : i64Min ≤ timestamp ∧ timestamp ≤ i64Max)
    (hclock : minUtc ≤ seconds ∧ seconds ≤ maxUtc) :
    distance timestamp seconds ≤ 60 ↔ |timestamp - seconds| ≤ 60 ∨
      |timestamp - seconds| = 2 ^ 63 := by
  unfold i64Min i64Max at hi64
  unfold minUtc maxUtc at hclock
  unfold distance wrapI64
  generalize hd : timestamp - seconds = d
  have hlow : -2 ^ 63 - 8210266876799 ≤ d := by omega
  have hhigh : d ≤ 2 ^ 63 - 1 + 8334601228800 := by omega
  -- The difference wraps at most once, to a number that is far from zero.
  have hwrapped : Int.bmod d (2 ^ 64) = d ∨ Int.bmod d (2 ^ 64) = d + 2 ^ 64 ∨
      Int.bmod d (2 ^ 64) = d - 2 ^ 64 := by
    rw [Int.bmod_def]
    omega
  have hrange : -2 ^ 63 ≤ Int.bmod d (2 ^ 64) ∧ Int.bmod d (2 ^ 64) < 2 ^ 63 := by
    rw [Int.bmod_def]
    omega
  generalize Int.bmod d (2 ^ 64) = w at *
  have habs : Int.bmod |w| (2 ^ 64) = if w = -2 ^ 63 then -2 ^ 63 else |w| := by
    rw [Int.bmod_def]
    rcases abs_cases w with ⟨hw, _⟩ | ⟨hw, _⟩ <;> rw [hw] <;> split_ifs <;> omega
  rw [habs]
  rcases abs_cases d with ⟨hd', _⟩ | ⟨hd', _⟩ <;> rcases abs_cases w with ⟨hw, _⟩ | ⟨hw, _⟩ <;>
    rw [hd', hw] <;> split_ifs <;> omega

theorem checkRequest_distance {result : Unit}
    (h : checkRequest crypto s.credentials now body = .ok result) :
    distance body.timestampUnixSeconds now.seconds ≤ 60 := by
  unfold checkRequest at h
  split at h
  · cases h
  · split at h
    · cases h
    · rename_i hnear
      exact not_lt.mp hnear

/-! ## The invariant -/

/-- A request passed the window at its check: it is a minute off at most, or its distance
overflows. -/
def Accepted (timestamp : Int) (checkedAt : Timestamp) : Prop :=
  (minUtc ≤ checkedAt.seconds ∧ checkedAt.seconds ≤ maxUtc) ∧
    (|timestamp - checkedAt.seconds| ≤ 60 ∨ |timestamp - checkedAt.seconds| = 2 ^ 63)

/-- What keeps requests from being used twice: the nonce of a request that passed is in the
table, or it was seen longer ago than nonces are kept. -/
structure Guarded (s : Broker) : Prop where
  flight : ∀ f ∈ s.flights, Accepted f.body.timestampUnixSeconds f.checkedAt ∧
    f.checkedAt ≤ s.clock
  passed : ∀ p ∈ s.passed, Accepted p.body.timestampUnixSeconds p.checkedAt ∧
    p.checkedAt ≤ p.insertedAt
  once : s.passed.Pairwise fun p q => q.Prompt → ¬ SameRequest p.body q.body
  remembered : ∀ p ∈ s.passed, (∃ row ∈ s.nonces, row.of p.body ∧ row.seenAt = p.insertedAt) ∨
    p.insertedAt + nonceRetention < s.clock

theorem guarded_new (clock : Timestamp) : Guarded (.new clock) where
  flight _ h := by cases h
  passed _ h := by cases h
  once := List.Pairwise.nil
  remembered _ h := by cases h

/-- Time passes. -/
theorem Guarded.tick (h : Guarded s) (hle : s.clock ≤ now) : Guarded { s with clock := now } where
  flight f hf := ⟨(h.flight f hf).1, (h.flight f hf).2.trans hle⟩
  passed := h.passed
  once := h.once
  remembered p hp := (h.remembered p hp).imp_right fun hold => hold.trans_le hle

/-- A request passes its checks. -/
theorem Guarded.receive (h : Guarded s) (body : SignedUseSecretRequest)
    (haccepted : Accepted body.timestampUnixSeconds s.clock) :
    Guarded { s with flights := s.flights ++ [⟨body, s.clock, false⟩] } where
  flight f hf := by
    rcases List.mem_append.mp hf with hf | hf
    · exact h.flight f hf
    · have hf : f = ⟨body, s.clock, false⟩ := List.mem_singleton.mp hf
      subst hf
      exact ⟨haccepted, le_refl _⟩
  passed := h.passed
  once := h.once
  remembered := h.remembered

/-- Nonces are deleted only when they were seen too long ago to matter. -/
theorem Guarded.prune (h : Guarded s) {i : Nat} {checkedAt : Timestamp}
    (hf : s.flights[i]? = some ⟨body, checkedAt, false⟩) :
    Guarded { s with
      nonces := s.nonces.filter fun row => !decide (row.seenAt < s.clock - nonceRetention)
      flights := s.flights.set i ⟨body, checkedAt, true⟩ } where
  flight f hmem := by
    rcases List.mem_or_eq_of_mem_set hmem with hmem | rfl
    · exact h.flight f hmem
    · exact h.flight ⟨body, checkedAt, false⟩ (List.mem_of_getElem? hf)
  passed := h.passed
  once := h.once
  remembered p hp := by
    rcases h.remembered p hp with ⟨row, hrow, hof, hseen⟩ | hold
    · by_cases hlong : row.seenAt < s.clock - nonceRetention
      · right
        have hlong : p.insertedAt < s.clock - nonceRetention := hseen ▸ hlong
        exact Int.add_lt_of_lt_sub_right hlong
      · left
        exact ⟨row, List.mem_filter.mpr ⟨hrow, by simp [hlong]⟩, hof, hseen⟩
    · exact .inr hold

/-- Two checks of one timestamp lie in a window of two minutes, and nonces are kept for five. -/
theorem window_covered {timestamp : Int} {checkedAt insertedAt checkedAt' now : Timestamp}
    (hp : Accepted timestamp checkedAt) (hf : Accepted timestamp checkedAt')
    (hinserted : checkedAt ≤ insertedAt) (hold : insertedAt + nonceRetention < now) :
    ¬ now ≤ checkedAt' + 179 * 1000000 := by
  intro hprompt
  obtain ⟨hrange, hnear⟩ := hp
  obtain ⟨hrange', hnear'⟩ := hf
  have hseconds : checkedAt'.seconds ≤ checkedAt.seconds + 120 := by
    -- A distance of `2 ^ 63` is beyond every other clock, so both checks are of one kind.
    unfold minUtc maxUtc at hrange hrange'
    rcases abs_cases (timestamp - checkedAt.seconds) with ⟨h, _⟩ | ⟨h, _⟩ <;>
      rcases abs_cases (timestamp - checkedAt'.seconds) with ⟨h', _⟩ | ⟨h', _⟩ <;>
      rw [h] at hnear <;> rw [h'] at hnear' <;> omega
  unfold Timestamp.seconds at hseconds
  unfold nonceRetention at hold
  unfold Timestamp at *
  omega

/-- **The nonce of a request that passed is still in the table** when the request comes to be
inserted again. -/
theorem Guarded.remembered_of_sameRequest (h : Guarded s) {f : Flight} (hf : f ∈ s.flights)
    (hprompt : s.clock ≤ f.checkedAt + 179 * 1000000) {p : Passed} (hp : p ∈ s.passed)
    (hsame : SameRequest p.body f.body) : ∃ row ∈ s.nonces, row.of f.body := by
  rcases h.remembered p hp with ⟨row, hrow, hof, _⟩ | hold
  · refine ⟨row, hrow, ?_⟩
    simp only [NonceRow.of, decide_eq_true_eq] at hof ⊢
    exact ⟨hof.1.trans hsame.1, hof.2.trans hsame.2.1⟩
  · have hflight := (h.flight f hf).1
    rw [← hsame.2.2] at hflight
    exact absurd hprompt (window_covered (h.passed p hp).1 hflight (h.passed p hp).2 hold)

/-- A nonce that is not in the table is inserted. -/
theorem Guarded.insert (h : Guarded s) {i : Nat} {checkedAt : Timestamp}
    (hf : s.flights[i]? = some ⟨body, checkedAt, true⟩) (hfree : ¬ s.nonces.any (·.of body)) :
    Guarded { s with
      flights := s.flights.eraseIdx i
      nonces := s.nonces ++ [⟨body.ptySessionId, body.nonce, s.clock⟩]
      passed := s.passed ++ [⟨body, checkedAt, s.clock⟩] } := by
  have hmem : (⟨body, checkedAt, true⟩ : Flight) ∈ s.flights := List.mem_of_getElem? hf
  constructor
  · intro f hf
    exact h.flight f ((List.eraseIdx_sublist _ _).subset hf)
  · intro p hp
    rcases List.mem_append.mp hp with hp | hp
    · exact h.passed p hp
    · have hp : p = ⟨body, checkedAt, s.clock⟩ := List.mem_singleton.mp hp
      subst hp
      exact h.flight _ hmem
  · refine List.pairwise_append.mpr ⟨h.once, List.pairwise_singleton _ _, ?_⟩
    intro p hp q hq hprompt hsame
    have hq : q = ⟨body, checkedAt, s.clock⟩ := List.mem_singleton.mp hq
    subst hq
    obtain ⟨row, hrow, hof⟩ := h.remembered_of_sameRequest hmem hprompt hp hsame
    exact hfree (List.any_eq_true.mpr ⟨row, hrow, hof⟩)
  · intro p hp
    rcases List.mem_append.mp hp with hp | hp
    · refine (h.remembered p hp).imp_left ?_
      rintro ⟨row, hrow, hrest⟩
      exact ⟨row, List.mem_append_left _ hrow, hrest⟩
    · have hp : p = ⟨body, checkedAt, s.clock⟩ := List.mem_singleton.mp hp
      subst hp
      exact .inl ⟨⟨body.ptySessionId, body.nonce, s.clock⟩, by simp, by simp [NonceRow.of], rfl⟩

theorem guarded_preserved (crypto : Crypto) : Preserved (brokerStep crypto) anyStep Guarded := by
  rintro s ⟨now, action⟩ s' h _ hstep
  unfold brokerStep at hstep
  split at hstep
  swap
  · cases hstep
  rename_i hclock
  have h := h.tick hclock.1
  cases action with
  | register pty publicKey =>
      cases hstep
      exact ⟨h.flight, h.passed, h.once, h.remembered⟩
  | revoke pty =>
      cases hstep
      exact ⟨h.flight, h.passed, h.once, h.remembered⟩
  | receive body =>
      simp only [act] at hstep
      split at hstep
      · cases hstep
        exact h
      · rename_i hcheck
        cases hstep
        have hnear := (distance_le_iff body.isI64 hclock.2).mp (checkRequest_distance hcheck)
        exact h.receive body ⟨hclock.2, hnear⟩
  | prune i =>
      simp only [act] at hstep
      split at hstep
      · rename_i body checkedAt hf
        cases hstep
        exact h.prune hf
      · cases hstep
  | insert i =>
      simp only [act] at hstep
      split at hstep
      · rename_i body checkedAt hf
        split at hstep
        · cases hstep
          exact ⟨fun f hf => h.flight f ((List.eraseIdx_sublist _ _).subset hf), h.passed, h.once,
            h.remembered⟩
        · rename_i hfree
          cases hstep
          exact h.insert hf hfree
      · cases hstep

/-! ## Every run -/

/-- A nonce of a terminal passes again only after the time that nonces are kept. -/
def NoncesApart (s : Broker) : Prop :=
  s.passed.Pairwise fun p q => p.body.ptySessionId = q.body.ptySessionId →
    p.body.nonce = q.body.nonce → p.insertedAt + nonceRetention < q.insertedAt

theorem NoncesApart.step {a : Timestamp × Action} (hguarded : Guarded s) (h : NoncesApart s)
    (hstep : brokerStep crypto s a = some s') : NoncesApart s' := by
  obtain ⟨now, action⟩ := a
  obtain ⟨hclock, hstep⟩ := Option.ite_none_right_eq_some.mp hstep
  have hguarded := hguarded.tick hclock.1
  cases action with
  | register pty publicKey | revoke pty =>
      cases hstep
      exact h
  | receive body | prune i =>
      simp only [act] at hstep
      split at hstep <;> cases hstep <;> exact h
  | insert i =>
      simp only [act] at hstep
      split at hstep
      · split at hstep <;> cases hstep
        · exact h
        · rename_i hfree
          refine List.pairwise_append.mpr ⟨h, List.pairwise_singleton _ _, ?_⟩
          intro p hp q hq hpty hnonce
          obtain rfl := List.mem_singleton.mp hq
          -- the row of the earlier request would have stopped this one
          refine (hguarded.remembered p hp).resolve_left ?_
          rintro ⟨row, hrow, hof, -⟩
          rw [NonceRow.of, hpty, hnonce] at hof
          exact hfree (List.any_eq_true.mpr ⟨row, hrow, hof⟩)
      · cases hstep

/-- **A nonce is spent for five minutes**, whatever its requests say of their time and however long
they stay between check and insert. -/
theorem nonces_spent (crypto : Crypto) (clock : Timestamp) (s : Broker)
    (hrun : Run (brokerStep crypto) anyStep (.new clock) s) : NoncesApart s :=
  hrun.invariant_of (guarded_preserved crypto) (fun _ _ _ hg h _ hstep => h.step hg hstep)
    (guarded_new clock) List.Pairwise.nil

/-- Every signature is valid. -/
def sampleCrypto : Crypto := ⟨fun _ => "", fun _ => some [], fun _ _ _ => true⟩

/-- A request of terminal `1`, at a timestamp. -/
def sampleRequest (timestamp : Int) (h : i64Min ≤ timestamp ∧ timestamp ≤ i64Max) :
    SignedUseSecretRequest := ⟨1, "gh", timestamp, "n1", "", h⟩

/-- A request is checked and inserted at one time. -/
def redeemed (now : Timestamp) (body : SignedUseSecretRequest) : List (Timestamp × Action) :=
  [(now, .receive body), (now, .prune 0), (now, .insert 0)]

/-- A list of actions on a broker where terminal `1` was registered at the epoch. -/
def sampleRun (actions : List (Timestamp × Action)) : Option Broker :=
  runList (brokerStep sampleCrypto) (.new 0) ((0, .register 1 "") :: actions)

theorem run_of_sampleRun (actions : List (Timestamp × Action)) (h : (sampleRun actions).isSome) :
    Run (brokerStep sampleCrypto) anyStep (.new 0) ((sampleRun actions).get h) :=
  .of_runList _ (Option.some_get h).symm

/-- A request and its replay a minute later. -/
def replayedRequest : List (Timestamp × Action) :=
  redeemed 0 (sampleRequest 60 (by decide)) ++ redeemed 60000000 (sampleRequest 60 (by decide))

/-- A nonce is signed again six minutes later. -/
def reusedNonce : List (Timestamp × Action) :=
  redeemed 0 (sampleRequest 0 (by decide)) ++ redeemed 360000000 (sampleRequest 360 (by decide))

theorem nonces_spent_reused : ∃ h, NoncesApart ((sampleRun reusedNonce).get h) :=
  ⟨by decide +kernel, nonces_spent sampleCrypto 0 _ (run_of_sampleRun _ (by decide +kernel))⟩

/-- The distance of this timestamp from the clock is the least `i64`. -/
def overflowingRequest : List (Timestamp × Action) :=
  redeemed 1000000 (sampleRequest (1 - 2 ^ 63) (by decide))

end Sulion.SecretBroker
