import Sulion.Lib.Table
import Sulion.Lib.Transition

set_option autoImplicit false

/-! # The signing keys of the issuer

`SigningKeys` of `auth.rs`. Calls of `find_key` and the background task share a cache of keys and
a lock that one refresh at a time holds. A fetch takes any time, may fail, and may be cut short
when its request is dropped; calls that find their key in the cache do not wait for it.

`keys_justified` says what a run's attempts and answers rest on, in terms of the events before
them. Steps take no time of their own: a lookup that follows a fetch is of the same instant.
-/

namespace Sulion.Auth

open Transition Table

/-- Nanoseconds. -/
abbrev Instant := Nat

def second : Nat := 1000000000

/-- `JWKS_CACHE_TTL`. -/
def cacheTtl : Nat := 60 * 60 * second

/-- `JWKS_REFRESH_COOLDOWN`. -/
def refreshCooldown : Nat := 30 * second

/-! ## Key sets -/

structure JwkKey where
  kid : Option String
  kty : String
  n : String
  e : String

/-- The loop of `refresh_jwks` over the keys of a response; `none` where one is invalid.
`fromRsa` is `DecodingKey::from_rsa_components`. -/
def decodeKeys {κ : Type} (fromRsa : String → String → Option κ) :
    List JwkKey → Table String κ → Option (Table String κ)
  | [], keys => some keys
  | key :: rest, keys =>
      if key.kty ≠ "RSA" then decodeKeys fromRsa rest keys
      else
        match key.kid with
        | none => decodeKeys fromRsa rest keys
        | some kid =>
            match fromRsa key.n key.e with
            | none => none
            | some decoding => decodeKeys fromRsa rest (keys.insert kid decoding)

/-- The keys of a response, unless it has none. -/
def usableKeys {κ : Type} (fromRsa : String → String → Option κ) (response : List JwkKey) :
    Option (Table String κ) :=
  (decodeKeys fromRsa response ∅).filter fun keys => !keys.isEmpty

/-! ## The state -/

inductive KeyError
  /-- `jwks missing key id`. -/
  | missingKeyId
  /-- `SigningKeysUnavailable`. -/
  | unavailable
  deriving DecidableEq

/-- `authentication_error_response`. -/
def KeyError.status : KeyError → Nat
  | .missingKeyId => 401
  | .unavailable => 503

structure JwksCache (κ : Type) where
  loadedAt : Instant
  keys : Table String κ

structure RefreshAttempt where
  instant : Instant
  succeeded : Bool

abbrev CallId := Nat

/-- Who holds the lock while a fetch is under way. -/
inductive Party
  | call (i : CallId)
  | refreshTask
  deriving DecidableEq

/-- Where a call of `find_key` is. -/
inductive Stage
  | absent
  /-- It has not found its key, and waits for the lock. -/
  | waiting (kid : String)
  | fetching (kid : String)
  | done
  deriving DecidableEq

/-- What has happened. -/
inductive Event (κ : Type)
  | attempt (time : Instant)
  | fetched (time : Instant) (keys : Table String κ)
  | answered (i : CallId) (kid : String) (answer : Except KeyError κ) (time : Instant)

structure SigningKeys (κ : Type) where
  now : Instant
  jwksCache : Option (JwksCache κ)
  lastRefresh : Option RefreshAttempt
  holder : Option Party
  stage : CallId → Stage
  /-- The latest event first. -/
  log : List (Event κ)

namespace SigningKeys

variable {κ : Type}

def new : SigningKeys κ := ⟨0, none, none, none, fun _ => .absent, []⟩

/-- `find_cached_key`. -/
def findCachedKey (s : SigningKeys κ) (kid : String) : Option κ :=
  s.jwksCache.bind fun cache =>
    if cache.loadedAt + cacheTtl ≤ s.now then none else cache.keys[kid]?

/-- `cache_is_usable`. -/
def cacheIsUsable (s : SigningKeys κ) : Bool :=
  s.jwksCache.any fun cache => decide (s.now < cache.loadedAt + cacheTtl)

/-- The last attempt, if it is not long ago. -/
def recentAttempt (s : SigningKeys κ) : Option RefreshAttempt :=
  s.lastRefresh.filter fun attempt => decide (s.now < attempt.instant + refreshCooldown)

/-- The call ends with an answer. -/
def answer (s : SigningKeys κ) (i : CallId) (kid : String) (answer : Except KeyError κ) :
    SigningKeys κ :=
  { s with
    stage := Function.update s.stage i .done
    log := .answered i kid answer s.now :: s.log }

/-- The start of `refresh_jwks`. -/
def beginRefresh (s : SigningKeys κ) (party : Party) : SigningKeys κ :=
  { s with
    lastRefresh := some ⟨s.now, false⟩
    holder := some party
    log := .attempt s.now :: s.log }

/-- `find_key`, once it has the lock. -/
def findLocked (s : SigningKeys κ) (i : CallId) (kid : String) : SigningKeys κ :=
  match s.findCachedKey kid with
  | some key => s.answer i kid (.ok key)
  | none =>
      match s.recentAttempt with
      | some attempt =>
          if attempt.succeeded && s.cacheIsUsable then s.answer i kid (.error .missingKeyId)
          else s.answer i kid (.error .unavailable)
      | none =>
          { s.beginRefresh (.call i) with stage := Function.update s.stage i (.fetching kid) }

/-- The end of `refresh_jwks` with these keys, or with an error. -/
def endRefresh (s : SigningKeys κ) (keys : Option (Table String κ)) : SigningKeys κ :=
  match keys with
  | none => { s with holder := none }
  | some keys =>
      { s with
        jwksCache := some ⟨s.now, keys⟩
        lastRefresh := s.lastRefresh.map fun attempt => { attempt with succeeded := true }
        holder := none
        log := .fetched s.now keys :: s.log }

/-- What the call that has fetched answers. -/
def answerFetched (s : SigningKeys κ) (i : CallId) (fetched : Bool) : SigningKeys κ :=
  match s.stage i with
  | .fetching kid =>
      if fetched then
        match s.findCachedKey kid with
        | some key => s.answer i kid (.ok key)
        | none => s.answer i kid (.error .missingKeyId)
      else s.answer i kid (.error .unavailable)
  | _ => s

inductive Action
  | pass (duration : Nat)
  /-- A call of `find_key` arrives and looks into the cache. -/
  | call (i : CallId) (kid : String)
  /-- A waiting call gets the lock. -/
  | lock (i : CallId)
  /-- The background task ticks and gets the lock. -/
  | tick
  /-- The fetch ends, with a response or without. -/
  | fetch (response : Option (List JwkKey))
  /-- The request of a call is dropped. -/
  | drop (i : CallId)

def step (fromRsa : String → String → Option κ) (s : SigningKeys κ) :
    Action → Option (SigningKeys κ)
  | .pass duration => some { s with now := s.now + duration }
  | .call i kid =>
      match s.stage i with
      | .absent =>
          match s.findCachedKey kid with
          | some key => some (s.answer i kid (.ok key))
          | none => some { s with stage := Function.update s.stage i (.waiting kid) }
      | _ => none
  | .lock i =>
      match s.stage i, s.holder with
      | .waiting kid, none => some (s.findLocked i kid)
      | _, _ => none
  | .tick =>
      match s.holder with
      | none => if s.recentAttempt.isSome then some s else some (s.beginRefresh .refreshTask)
      | some _ => none
  | .fetch response =>
      match s.holder with
      | none => none
      | some party =>
          let keys := response.bind (usableKeys fromRsa)
          match party with
          | .refreshTask => some (s.endRefresh keys)
          | .call i => some ((s.endRefresh keys).answerFetched i keys.isSome)
  | .drop i =>
      match s.stage i with
      | .waiting _ | .fetching _ =>
          some { s with
            stage := Function.update s.stage i .done
            holder := if s.holder = some (.call i) then none else s.holder }
      | _ => none

end SigningKeys

/-! ## What an event rests on -/

section Property

variable {κ : Type}

/-- The last successful fetch. -/
def lastFetch : List (Event κ) → Option (Instant × Table String κ)
  | [] => none
  | .fetched time keys :: _ => some (time, keys)
  | _ :: before => lastFetch before

/-- The last successful fetch is less than an hour old, and these are its keys. -/
def UsableFetch (before : List (Event κ)) (time : Instant) (keys : Table String κ) : Prop :=
  ∃ loaded, lastFetch before = some (loaded, keys) ∧ loaded ≤ time ∧ time < loaded + cacheTtl

/-- What an event says of those before it. -/
def Justified (before : List (Event κ)) : Event κ → Prop
  | .attempt time => ∀ time', .attempt time' ∈ before → time' + refreshCooldown ≤ time
  | .fetched _ _ => True
  | .answered _ kid (.ok key) time => ∃ keys, UsableFetch before time keys ∧ keys[kid]? = some key
  | .answered _ kid (.error error) time =>
      if error.status = 401 then ∃ keys, UsableFetch before time keys ∧ keys[kid]? = none
      else error.status = 503 ∧ ∀ keys, UsableFetch before time keys → keys[kid]? = none

/-- Every event of the log is justified by those before it. -/
def AllJustified (log : List (Event κ)) : Prop :=
  ∀ event before, event :: before <:+ log → Justified before event

theorem AllJustified.cons {log : List (Event κ)} {event : Event κ} (h : AllJustified log)
    (hevent : Justified log event) : AllJustified (event :: log) := by
  intro event' before hsuffix
  rcases List.suffix_cons_iff.mp hsuffix with heq | hsuffix
  · cases heq
    exact hevent
  · exact h event' before hsuffix

end Property

/-! ## The invariant -/

namespace SigningKeys

variable {κ : Type} {s s' : SigningKeys κ} {i : CallId} {kid : String}

structure Good (s : SigningKeys κ) : Prop where
  justified : AllJustified s.log
  cache : s.jwksCache = (lastFetch s.log).map fun fetch => ⟨fetch.1, fetch.2⟩
  loaded : ∀ cache ∈ s.jwksCache, cache.loadedAt ≤ s.now
  attempts : ∀ time, .attempt time ∈ s.log → ∃ attempt ∈ s.lastRefresh, time ≤ attempt.instant
  attempted : ∀ attempt ∈ s.lastRefresh, attempt.instant ≤ s.now
  /-- A call that fetches holds the lock, and has not found its key. -/
  fetching : ∀ i kid, s.stage i = .fetching kid →
    s.holder = some (.call i) ∧ s.findCachedKey kid = none

theorem Good.new : Good (SigningKeys.new : SigningKeys κ) where
  justified event before h := by
    have := List.suffix_nil.mp h
    cases this
  cache := rfl
  loaded := nofun
  attempts := nofun
  attempted := nofun
  fetching := nofun

/-- What the cache has is what the last fetch has brought. -/
theorem Good.usableFetch (h : s.Good) {keys : Table String κ} :
    UsableFetch s.log s.now keys ↔
      ∃ cache, s.jwksCache = some cache ∧ cache.keys = keys ∧
        s.now < cache.loadedAt + cacheTtl := by
  unfold UsableFetch
  rw [h.cache]
  constructor
  · rintro ⟨loaded, hfetch, -, hlt⟩
    exact ⟨⟨loaded, keys⟩, by rw [hfetch]; rfl, rfl, hlt⟩
  · rintro ⟨cache, hcache, rfl, hlt⟩
    obtain ⟨fetch, hfetch, rfl⟩ := Option.map_eq_some_iff.mp hcache
    refine ⟨fetch.1, hfetch, ?_, hlt⟩
    have hcached : s.jwksCache = some ⟨fetch.1, fetch.2⟩ := by rw [h.cache, hfetch]; rfl
    exact h.loaded _ hcached

theorem Good.found (h : s.Good) {key : κ} (hkey : s.findCachedKey kid = some key) :
    ∃ keys, UsableFetch s.log s.now keys ∧ keys[kid]? = some key := by
  obtain ⟨cache, hcache, hkey⟩ := Option.bind_eq_some_iff.mp hkey
  split at hkey
  · cases hkey
  · rename_i hlt
    exact ⟨cache.keys, h.usableFetch.mpr ⟨cache, hcache, rfl, not_le.mp hlt⟩, hkey⟩

theorem Good.notFound (h : s.Good) (hkey : s.findCachedKey kid = none) (keys : Table String κ)
    (husable : UsableFetch s.log s.now keys) : keys[kid]? = none := by
  obtain ⟨cache, hcache, rfl, hlt⟩ := h.usableFetch.mp husable
  rw [findCachedKey, hcache, Option.bind_some, if_neg (not_le.mpr hlt)] at hkey
  exact hkey

/-- An answer that rests on the state it is given in. -/
theorem Good.answer (h : s.Good) {answer : Except KeyError κ}
    (hjustified : Justified s.log (.answered i kid answer s.now)) :
      (s.answer i kid answer).Good where
  justified := h.justified.cons hjustified
  cache := h.cache
  loaded := h.loaded
  attempts time hmem := by
    rcases List.mem_cons.mp hmem with heq | hmem
    · cases heq
    · exact h.attempts time hmem
  attempted := h.attempted
  fetching j kid' hstage := by
    have hstage' : Function.update s.stage i .done j = .fetching kid' := hstage
    rw [Function.update_apply] at hstage'
    split at hstage'
    · cases hstage'
    · exact h.fetching j kid' hstage'

theorem Good.answer_unavailable (h : s.Good) (hkey : s.findCachedKey kid = none) :
    (s.answer i kid (.error .unavailable)).Good :=
  h.answer ⟨rfl, h.notFound hkey⟩

theorem Good.answer_missing (h : s.Good) (hkey : s.findCachedKey kid = none)
    (husable : s.cacheIsUsable = true) : (s.answer i kid (.error .missingKeyId)).Good := by
  refine h.answer ?_
  obtain ⟨cache, hcache, hlt⟩ := (Option.any_eq_true _ _).mp husable
  have hfetch := h.usableFetch.mpr ⟨cache, hcache, rfl, of_decide_eq_true hlt⟩
  exact ⟨cache.keys, hfetch, h.notFound hkey _ hfetch⟩

theorem Good.setLock (h : s.Good) {holder : Option Party} {stage : CallId → Stage}
    (hfetching : ∀ i kid, stage i = .fetching kid →
      holder = some (.call i) ∧ s.findCachedKey kid = none) :
    Good { s with holder := holder, stage := stage } :=
  ⟨h.justified, h.cache, h.loaded, h.attempts, h.attempted, hfetching⟩

theorem Good.beginRefresh (h : s.Good) (hrecent : s.recentAttempt = none) (party : Party)
    (hfree : s.holder = none) : (s.beginRefresh party).Good where
  justified := by
    refine h.justified.cons fun time hmem => ?_
    obtain ⟨attempt, hattempt, hle⟩ := h.attempts time hmem
    have hold : attempt.instant + refreshCooldown ≤ s.now := by
      simpa using Option.filter_eq_none_iff.mp hrecent attempt hattempt
    exact (Nat.add_le_add_right hle refreshCooldown).trans hold
  cache := h.cache
  loaded := h.loaded
  attempts time hmem := by
    refine ⟨⟨s.now, false⟩, rfl, ?_⟩
    rcases List.mem_cons.mp hmem with heq | hmem
    · cases heq
      exact le_rfl
    · obtain ⟨attempt, hattempt, hle⟩ := h.attempts time hmem
      exact hle.trans (h.attempted attempt hattempt)
  attempted attempt hattempt := by
    cases hattempt
    exact le_rfl
  fetching i kid hstage := by
    have hheld := (h.fetching i kid hstage).1
    rw [hfree] at hheld
    cases hheld

/-- Of the calls at most the one that holds the lock fetches. -/
theorem Good.noFetching (h : s.Good) (hfree : s.holder = none) (i : CallId) (kid : String) :
    s.stage i ≠ .fetching kid := by
  intro hstage
  have hheld := (h.fetching i kid hstage).1
  rw [hfree] at hheld
  cases hheld

theorem Good.findLocked (h : s.Good) (hfree : s.holder = none) : (s.findLocked i kid).Good := by
  unfold SigningKeys.findLocked
  split
  · rename_i key hkey
    exact h.answer (h.found hkey)
  · rename_i hkey
    split
    · split
      · rename_i husable
        rw [Bool.and_eq_true] at husable
        exact h.answer_missing hkey husable.2
      · exact h.answer_unavailable hkey
    · rename_i hrecent
      refine (h.beginRefresh hrecent (.call i) hfree).setLock fun j kid' hstage => ?_
      rw [Function.update_apply] at hstage
      split at hstage
      · rename_i hj
        cases hstage
        exact ⟨by rw [hj]; rfl, hkey⟩
      · exact absurd hstage (h.noFetching hfree j kid')

/-- The end of a fetch; the call that has fetched answers after it. -/
theorem Good.endRefresh (h : s.Good) (keys : Option (Table String κ))
    (hfetching : ∀ i kid, s.stage i ≠ .fetching kid) : (s.endRefresh keys).Good := by
  unfold SigningKeys.endRefresh
  split
  · exact h.setLock fun i kid hstage => absurd hstage (hfetching i kid)
  · rename_i keys
    refine ⟨h.justified.cons trivial, rfl, ?_, ?_, ?_, fun i kid hstage =>
      absurd hstage (hfetching i kid)⟩
    · intro cache hcache
      cases hcache
      exact le_rfl
    · intro time hmem
      rcases List.mem_cons.mp hmem with heq | hmem
      · cases heq
      · obtain ⟨attempt, hattempt, hle⟩ := h.attempts time hmem
        exact ⟨_, Option.mem_map_of_mem _ hattempt, hle⟩
    · intro attempt hattempt
      obtain ⟨before, hbefore, rfl⟩ := Option.mem_map.mp hattempt
      exact h.attempted before hbefore

theorem answerFetched_fetching (hi : s.stage i = .fetching kid) (fetched : Bool) :
    s.answerFetched i fetched =
      if fetched then
        match s.findCachedKey kid with
        | some key => s.answer i kid (.ok key)
        | none => s.answer i kid (.error .missingKeyId)
      else s.answer i kid (.error .unavailable) := by
  unfold answerFetched
  rw [hi]

theorem answerFetched_other (hi : ∀ kid, s.stage i ≠ .fetching kid) (fetched : Bool) :
    s.answerFetched i fetched = s := by
  unfold answerFetched
  split
  · rename_i kid hkid
    exact absurd hkid (hi kid)
  · rfl

/-- The call that has fetched answers from what its fetch has left. -/
theorem Good.fetchCall (h : s.Good) (hheld : s.holder = some (.call i))
    (keys : Option (Table String κ)) :
    ((s.endRefresh keys).answerFetched i keys.isSome).Good := by
  have hstage : (s.endRefresh keys).stage = s.stage := by cases keys <;> rfl
  have hother : ∀ j kid, s.stage j = .fetching kid → j = i := by
    intro j kid hj
    have hheld' := (h.fetching j kid hj).1
    rw [hheld] at hheld'
    cases hheld'
    rfl
  by_cases hi : ∃ kid, s.stage i = .fetching kid
  · obtain ⟨kid, hi⟩ := hi
    -- the state in which the call is done already
    have hnone : ∀ j kid, Function.update s.stage i .done j ≠ .fetching kid := by
      intro j kid hj
      rw [Function.update_apply] at hj
      split at hj
      · cases hj
      · rename_i hne
        exact hne (hother j kid hj)
    have hdone : Good { s with stage := Function.update s.stage i .done } :=
      h.setLock fun j kid hj => absurd hj (hnone j kid)
    have hend := hdone.endRefresh keys hnone
    rw [answerFetched_fetching (by rw [hstage, hi])]
    cases keys with
    | none =>
        have hanswer := hend.answer_unavailable (i := i) (h.fetching i kid hi).2
        simp only [SigningKeys.answer, SigningKeys.endRefresh, Function.update_idem] at hanswer
        exact hanswer
    | some keys =>
        rw [Option.isSome_some, if_pos rfl]
        split
        · rename_i key hkey
          have hjust : Justified _ (.answered i kid (.ok key) _) := hend.found hkey
          have hanswer := hend.answer hjust
          simp only [SigningKeys.answer, SigningKeys.endRefresh, Function.update_idem] at hanswer
          exact hanswer
        · rename_i hkey
          have husable : SigningKeys.cacheIsUsable (SigningKeys.endRefresh { s with
              stage := Function.update s.stage i .done } (some keys)) = true := by
            refine (Option.any_eq_true _ _).mpr ⟨_, rfl, decide_eq_true ?_⟩
            exact Nat.lt_add_of_pos_right (by decide)
          have hanswer := hend.answer_missing (i := i) hkey husable
          simp only [SigningKeys.answer, SigningKeys.endRefresh, Function.update_idem] at hanswer
          exact hanswer
  · have hnone : ∀ kid, s.stage i ≠ .fetching kid := fun kid hkid => hi ⟨kid, hkid⟩
    rw [answerFetched_other (by rw [hstage]; exact hnone)]
    refine h.endRefresh keys fun j kid hj => ?_
    exact hnone kid (hother j kid hj ▸ hj)

/-! ## Runs -/

theorem Good.step {fromRsa : String → String → Option κ} {a : Action} (h : s.Good)
    (hstep : s.step fromRsa a = some s') : s'.Good := by
  cases a with
  | pass duration =>
      cases hstep
      refine ⟨h.justified, h.cache, fun cache hcache => ?_, h.attempts, fun attempt hattempt => ?_,
        fun i kid hstage => ?_⟩
      · exact (h.loaded cache hcache).trans (Nat.le_add_right _ _)
      · exact (h.attempted attempt hattempt).trans (Nat.le_add_right _ _)
      · obtain ⟨hheld, hkey⟩ := h.fetching i kid hstage
        refine ⟨hheld, ?_⟩
        unfold findCachedKey at hkey ⊢
        dsimp only
        cases hcache : s.jwksCache with
        | none => rfl
        | some cache =>
            rw [hcache, Option.bind_some] at hkey
            rw [Option.bind_some]
            split at hkey
            · rename_i hold
              rw [if_pos (hold.trans (Nat.le_add_right _ _))]
            · split
              · rfl
              · exact hkey
  | call i kid =>
      simp only [SigningKeys.step] at hstep
      split at hstep
      · split at hstep
        · rename_i key hkey
          cases hstep
          exact h.answer (h.found hkey)
        · cases hstep
          refine h.setLock fun j kid' hstage => ?_
          rw [Function.update_apply] at hstage
          split at hstage
          · cases hstage
          · exact h.fetching j kid' hstage
      · cases hstep
  | lock i =>
      simp only [SigningKeys.step] at hstep
      split at hstep
      · rename_i kid hstage hfree
        cases hstep
        exact h.findLocked hfree
      · cases hstep
  | tick =>
      simp only [SigningKeys.step] at hstep
      split at hstep
      · rename_i hfree
        split at hstep
        · cases hstep
          exact h
        · rename_i hrecent
          cases hstep
          exact h.beginRefresh (Option.not_isSome_iff_eq_none.mp hrecent) .refreshTask hfree
      · cases hstep
  | fetch response =>
      simp only [SigningKeys.step] at hstep
      split at hstep
      · cases hstep
      · rename_i party hheld
        split at hstep
        · cases hstep
          refine h.endRefresh _ fun i kid hstage => ?_
          have hheld' := (h.fetching i kid hstage).1
          rw [hheld] at hheld'
          cases hheld'
        · cases hstep
          exact h.fetchCall hheld _
  | drop i =>
      simp only [SigningKeys.step] at hstep
      have hdrop : Good { s with
          stage := Function.update s.stage i .done
          holder := if s.holder = some (.call i) then none else s.holder } := by
        refine h.setLock fun j kid hstage => ?_
        rw [Function.update_apply] at hstage
        split at hstage
        · cases hstage
        · rename_i hne
          obtain ⟨hheld, hkey⟩ := h.fetching j kid hstage
          refine ⟨?_, hkey⟩
          rw [if_neg, hheld]
          rw [hheld]
          intro heq
          cases heq
          exact hne rfl
      split at hstep
      · cases hstep
        exact hdrop
      · cases hstep
        exact hdrop
      · cases hstep

end SigningKeys

/-- **What a run does is justified.** Two attempts are at least 30 seconds apart; a key that is
returned is one of the last successful fetch, which is less than an hour old; a token is rejected
with 401 only when such a fetch lacks its key id, and every other failure is a 503. -/
theorem keys_justified {κ : Type} (fromRsa : String → String → Option κ) (s : SigningKeys κ)
    (hrun : Run (SigningKeys.step fromRsa) anyStep .new s) : AllJustified s.log :=
  (hrun.invariant (fun _ _ _ h _ hstep => h.step hstep) SigningKeys.Good.new).justified

/-- **The cache is what the fetches have brought**: in every run a key is found exactly when the
last successful fetch has it and is less than an hour old. -/
theorem findCachedKey_iff_fetched {κ : Type} (fromRsa : String → String → Option κ)
    (s : SigningKeys κ) (hrun : Run (SigningKeys.step fromRsa) anyStep .new s) (kid : String)
    (key : κ) : s.findCachedKey kid = some key ↔
      ∃ keys, UsableFetch s.log s.now keys ∧ keys[kid]? = some key := by
  have h : s.Good := hrun.invariant (fun _ _ _ h _ hstep => h.step hstep) SigningKeys.Good.new
  refine ⟨h.found, ?_⟩
  rintro ⟨keys, husable, hkey⟩
  obtain ⟨cache, hcache, rfl, hlt⟩ := h.usableFetch.mp husable
  rw [SigningKeys.findCachedKey, hcache, Option.bind_some, if_neg (not_le.mpr hlt), hkey]

/-- The actions of one call, and of a second that asks for a key id the fetched set lacks. -/
def sampleActions : List SigningKeys.Action :=
  [.pass 5, .call 0 "k", .lock 0, .fetch (some [⟨some "k", "RSA", "n", "e"⟩]), .call 1 "x", .lock 1]

theorem keys_justified_fetched :
    ∃ s, runList (SigningKeys.step fun n _ => some n) .new sampleActions = some s ∧
      s.log = [.answered 1 "x" (.error .missingKeyId) 5, .answered 0 "k" (.ok "n") 5,
        .fetched 5 ((∅ : Table String String).insert "k" "n"), .attempt 5] ∧
      AllJustified s.log :=
  ⟨_, rfl, rfl, keys_justified (fun n _ => some n) _ (Run.of_runList sampleActions rfl)⟩

theorem findCachedKey_iff_fetched_sample :
    ∃ s, runList (SigningKeys.step fun n _ => some n) .new sampleActions = some s ∧
      (s.findCachedKey "k" = some "n" ↔
        ∃ keys, UsableFetch s.log s.now keys ∧ keys["k"]? = some "n") :=
  ⟨_, rfl, findCachedKey_iff_fetched (fun n _ => some n) _ (Run.of_runList sampleActions rfl) _ _⟩

end Sulion.Auth
