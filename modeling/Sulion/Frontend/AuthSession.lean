import Mathlib.Data.Option.Basic
import Sulion.Lib.Transition

set_option autoImplicit false

/-! # Loading the session of a login

`getCurrentSession` loads the session with the SDK, and calls of one auth generation share the load
that is pending. A call that saw its token rejected names it: the load it starts refreshes that
token, and with a load that nobody forced it looks at the token that comes. Signing in and out
advance the generation, while loads of earlier ones are still under way.

The steps are the calls, the SDK's callbacks and the continuations of the calls when their load has
ended. `session_kept_apart` is about every order of them. With a load that was forced for another
token a call gets its rejected token back without a refresh (`sharedForce_returns_rejected`).
-/

namespace Sulion.Frontend.AuthSession

open Transition

/-! ## Operations and calls -/

/-- The access token of a valid session. -/
structure Token where
  text : String
  nonempty : text ≠ ""
  deriving DecidableEq

/-- A session, and the generation whose storage it was loaded from. -/
structure Session where
  token : Token
  generation : Nat
  deriving DecidableEq

/-- How far `loadSession` is. -/
inductive Load
  /-- Waits for `getSession`. -/
  | loading
  /-- Waits for `refreshSession`. -/
  | refreshing
  | resolved (session : Option Session)
  | rejected
  deriving DecidableEq

def Load.running : Load → Bool
  | .loading | .refreshing => true
  | .resolved _ | .rejected => false

structure Operation where
  generation : Nat
  rejectedToken : Option String
  load : Load
  deriving DecidableEq

/-- A call that waits for an operation, its own or a pending one, since `madeAt`. -/
structure Call where
  generation : Nat
  rejectedToken : Option String
  operation : Nat
  owner : Bool
  madeAt : Nat
  deriving DecidableEq

/-- A call that returned a session, and the generation that was current then. -/
structure Returned where
  rejectedToken : Option String
  madeAt : Nat
  session : Session
  returnedUnder : Nat
  deriving DecidableEq

structure State where
  /-- Counts the steps. -/
  clock : Nat
  generation : Nat
  storage : List (String × String)
  pending : Option Nat
  operations : List Operation
  calls : List Call
  returned : List Returned
  /-- When a refresh completed, and with which token. -/
  refreshes : List (Nat × Token)
  deriving DecidableEq

def State.new (storage : List (String × String)) : State := ⟨0, 0, storage, none, [], [], [], []⟩

/-! ## The steps -/

/-- What the SDK does to its storage. -/
inductive Write
  | setItem (key value : String)
  | removeItem (key : String)
  | clear
  deriving DecidableEq

def Write.apply (storage : List (String × String)) : Write → List (String × String)
  | .setItem key value => (storage.filter fun item => item.1 ≠ key) ++ [(key, value)]
  | .removeItem key => storage.filter fun item => item.1 ≠ key
  | .clear => []

/-- `storageForGeneration`. -/
def storageForGeneration (s : State) (generation : Nat) (write : Write) : State :=
  if generation = s.generation then { s with storage := write.apply s.storage } else s

/-- Neither `undefined` nor empty. -/
def truthy (rejectedToken : Option String) : Bool := rejectedToken.any fun token => token ≠ ""

/-- The pending operation, if it is of the current generation. -/
def State.shared (s : State) : Option Nat :=
  s.pending.filter fun i => (s.operations[i]?).any fun op => op.generation = s.generation

/-- `getCurrentSession` up to its first `await`. Without a user the load is through at once. -/
def getCurrentSession (s : State) (rejectedToken : Option String) (hasUser : Bool) (madeAt : Nat) :
    State :=
  match s.shared with
  | some i => { s with calls := s.calls ++ [⟨s.generation, rejectedToken, i, false, madeAt⟩] }
  | none =>
      let i := s.operations.length
      { s with
        pending := some i
        operations := s.operations ++
          [⟨s.generation, rejectedToken, if hasUser then .loading else .resolved none⟩]
        calls := s.calls ++ [⟨s.generation, rejectedToken, i, true, madeAt⟩] }

/-- What `getSession` calls back with: a valid session's token, whether it is near its expiry and
whether the SDK had to refresh it. -/
structure Loaded where
  token : Token
  nearExpiry : Bool
  wasRefreshed : Bool
  deriving DecidableEq

def State.setLoad (s : State) (i : Nat) (op : Operation) (load : Load) : State :=
  { s with operations := s.operations.set i { op with load := load } }

inductive Action
  | call (rejectedToken : Option String) (hasUser : Bool)
  /-- `none` is an error or a session that is not valid, here and below. -/
  | loaded (operation : Nat) (result : Option Loaded)
  | refreshed (operation : Nat) (result : Option Token)
  /-- A call goes on after its `await`. -/
  | resume (call : Nat) (hasUser : Bool)
  /-- The SDK writes for a user of that generation. -/
  | write (generation : Nat) (write : Write)
  | signOut (writes : List Write)
  | signIn
  deriving DecidableEq

/-- The call no longer waits, and its `finally` clears its own operation. -/
def State.finish (s : State) (c : Nat) (call : Call) : State :=
  { s with
    calls := s.calls.eraseIdx c
    pending := if call.owner ∧ s.pending = some call.operation then none else s.pending }

/-- The rest of a call after its operation. -/
def goOn (s : State) (call : Call) (op : Operation) (hasUser : Bool) : Option State :=
  match op.load with
  | .rejected => some s
  | .resolved session =>
      if call.generation ≠ s.generation then some s
      else if !call.owner && truthy call.rejectedToken && !truthy op.rejectedToken &&
          session.map (·.token.text) == call.rejectedToken then
        some (getCurrentSession s call.rejectedToken hasUser call.madeAt)
      else
        match session with
        | some session => some { s with
            returned := s.returned ++ [⟨call.rejectedToken, call.madeAt, session, s.generation⟩] }
        | none => some s
  | _ => none

def act (s : State) : Action → Option State
  | .call rejectedToken hasUser => some (getCurrentSession s rejectedToken hasUser s.clock)
  | .loaded i result =>
      match s.operations[i]? with
      | some op =>
          if op.load = .loading then
            match result with
            | none => some (s.setLoad i op .rejected)
            | some ⟨token, nearExpiry, wasRefreshed⟩ =>
                let s := if wasRefreshed then
                  { s with refreshes := s.refreshes ++ [(s.clock, token)] } else s
                if !nearExpiry && op.rejectedToken ≠ some token.text then
                  some (s.setLoad i op (.resolved (some ⟨token, op.generation⟩)))
                else some (s.setLoad i op .refreshing)
          else none
      | none => none
  | .refreshed i result =>
      match s.operations[i]? with
      | some op =>
          if op.load = .refreshing then
            match result with
            | none => some (s.setLoad i op .rejected)
            | some token => some ({ s with refreshes := s.refreshes ++ [(s.clock, token)] }.setLoad
                i op (.resolved (some ⟨token, op.generation⟩)))
          else none
      | none => none
  | .resume c hasUser =>
      match s.calls[c]? with
      | some call =>
          match s.operations[call.operation]? with
          | some op => goOn (s.finish c call) call op hasUser
          | none => none
      | none => none
  | .write generation write =>
      if generation ≤ s.generation then some (storageForGeneration s generation write) else none
  | .signOut writes =>
      some (writes.foldl (fun s write => storageForGeneration s s.generation write)
        { s with generation := s.generation + 1 })
  | .signIn => some { s with generation := s.generation + 1 }

/-- Each step takes a moment. -/
def step (s : State) (a : Action) : Option State :=
  (act s a).map fun t => { t with clock := s.clock + 1 }

/-! ## What holds of every order -/

/-- Logins are kept apart. -/
structure KeptApart (s : State) : Prop where
  returned : ∀ r ∈ s.returned, r.session.generation = r.returnedUnder
  oneLoad : ∀ (i j : Nat) (op op' : Operation), s.operations[i]? = some op →
    s.operations[j]? = some op' → op.load.running = true → op'.load.running = true →
      op.generation = op'.generation → i = j
  storage : ∀ (generation : Nat) (write : Write) (t : State),
    step s (.write generation write) = some t → t.storage ≠ s.storage → generation = s.generation

/-- A refresh produced this token after that moment. -/
def RefreshedSince (s : State) (madeAt : Nat) (token : String) : Prop :=
  ∃ refresh ∈ s.refreshes, madeAt < refresh.1 ∧ refresh.2.text = token

/-- No call gets back the token that it rejected, unless a refresh produced it again. -/
def HonoursRejections (s : State) : Prop :=
  ∀ r ∈ s.returned, ∀ token, r.rejectedToken = some token → r.session.token.text = token →
    RefreshedSince s r.madeAt token

/-- The operation that a call would share was not forced, or has not ended with this token. -/
def MayShare (s : State) (rejectedToken : Option String) : Prop :=
  ∀ (i : Nat) (op : Operation) (session : Session), s.shared = some i →
    s.operations[i]? = some op → truthy op.rejectedToken = true →
      op.load = .resolved (some session) → rejectedToken ≠ some session.token.text

/-- A call with a rejected token joins no forced operation that has ended with this token, and a
forced operation that ends without a refresh ends with no token that one of its calls rejected. -/
def InOrder (s : State) : Action → Prop
  | .call rejectedToken _ => MayShare s rejectedToken
  | .resume c _ => ∀ (call : Call) (op : Operation), s.calls[c]? = some call →
      s.operations[call.operation]? = some op → truthy op.rejectedToken = false →
        MayShare s call.rejectedToken
  | .loaded i (some ⟨token, false, false⟩) => ∀ op : Operation, s.operations[i]? = some op →
      truthy op.rejectedToken = true → op.rejectedToken ≠ some token.text →
        ∀ call ∈ s.calls, call.operation = i → call.rejectedToken ≠ some token.text
  | _ => True

/-! ## Operations and their calls -/

structure Inv (s : State) : Prop where
  generation : ∀ (i : Nat) (op : Operation), s.operations[i]? = some op →
    op.generation ≤ s.generation
  session : ∀ (i : Nat) (op : Operation) (session : Session), s.operations[i]? = some op →
    op.load = .resolved (some session) → session.generation = op.generation
  call : ∀ call ∈ s.calls, ∃ op, s.operations[call.operation]? = some op ∧
    op.generation = call.generation ∧ (call.owner = true → op.rejectedToken = call.rejectedToken)
  pending : ∀ (i : Nat) (op : Operation), s.operations[i]? = some op → op.load.running = true →
    op.generation = s.generation → s.pending = some i
  oneLoad : ∀ (i j : Nat) (op op' : Operation), s.operations[i]? = some op →
    s.operations[j]? = some op' → op.load.running = true → op'.load.running = true →
      op.generation = op'.generation → i = j
  returned : ∀ r ∈ s.returned, r.session.generation = r.returnedUnder

variable {s t : State} {a : Action} {i c : Nat} {op : Operation} {call : Call}
  {rejectedToken : Option String} {hasUser : Bool} {madeAt : Nat}

theorem of_shared (h : s.shared = some i) :
    s.pending = some i ∧ ∃ op, s.operations[i]? = some op ∧ op.generation = s.generation := by
  obtain ⟨hpending, hany⟩ := Option.filter_eq_some_iff.mp h
  obtain ⟨op, hop, hgeneration⟩ := (Option.any_eq_true _ _).mp hany
  exact ⟨hpending, op, hop, of_decide_eq_true hgeneration⟩

theorem generation_ne_of_not_shared (h : s.shared = none) (hpending : s.pending = some i)
    (hop : s.operations[i]? = some op) : op.generation ≠ s.generation := by
  intro hsame
  simp [State.shared, hpending, Option.filter, hop, hsame] at h

/-- The operations after one was added. -/
theorem getElem?_snoc {new : Operation} (h : (s.operations ++ [new])[i]? = some op) :
    s.operations[i]? = some op ∨ i = s.operations.length ∧ op = new := by
  rcases lt_or_ge i s.operations.length with hlt | hge
  · rw [List.getElem?_append_left hlt] at h
    exact .inl h
  · rw [List.getElem?_append_right hge] at h
    obtain ⟨hbound, hget⟩ := List.getElem?_eq_some_iff.mp h
    simp only [List.length_singleton] at hbound
    exact .inr ⟨by omega, by simpa using hget.symm⟩

theorem Inv.getCurrentSession (hinv : Inv s) :
    Inv (getCurrentSession s rejectedToken hasUser madeAt) := by
  rw [AuthSession.getCurrentSession]
  split
  · rename_i i hshared
    obtain ⟨-, op, hop, hgeneration⟩ := of_shared hshared
    refine { hinv with call := fun call h => ?_ }
    rcases List.mem_append.mp h with hold | hnew
    · exact hinv.call call hold
    · rw [List.mem_singleton.mp hnew]
      exact ⟨op, hop, hgeneration, fun howner => by cases howner⟩
  · rename_i hshared
    have hidle : ∀ (i : Nat) (op : Operation), s.operations[i]? = some op →
        op.load.running = true → op.generation ≠ s.generation := fun i op hop hrunning hsame =>
      generation_ne_of_not_shared hshared (hinv.pending i op hop hrunning hsame) hop hsame
    have hold : ∀ (i : Nat) (op new : Operation), s.operations[i]? = some op →
        (s.operations ++ [new])[i]? = some op := fun i op new hop => by
      rw [List.getElem?_append_left (List.getElem?_eq_some_iff.mp hop).1]
      exact hop
    refine ⟨fun i op hop => ?_, fun i op session hop hload => ?_, fun call h => ?_,
      fun i op hop hrunning hsame => ?_, fun i j op op' hop hop' hrunning hrunning' hsame => ?_,
      hinv.returned⟩
    · rcases getElem?_snoc hop with hop | ⟨-, rfl⟩
      · exact hinv.generation i op hop
      · exact le_rfl
    · rcases getElem?_snoc hop with hop | ⟨-, rfl⟩
      · exact hinv.session i op session hop hload
      · cases hasUser <;> cases hload
    · rcases List.mem_append.mp h with hcall | hnew
      · obtain ⟨op, hop, hrest⟩ := hinv.call call hcall
        exact ⟨op, hold _ op _ hop, hrest⟩
      · rw [List.mem_singleton.mp hnew]
        exact ⟨_, List.getElem?_concat_length, rfl, fun _ => rfl⟩
    · rcases getElem?_snoc hop with hop | ⟨rfl, -⟩
      · exact absurd hsame (hidle i op hop hrunning)
      · rfl
    · rcases getElem?_snoc hop with hop | ⟨rfl, rfl⟩ <;>
        rcases getElem?_snoc hop' with hop' | ⟨rfl, rfl⟩
      · exact hinv.oneLoad i j op op' hop hop' hrunning hrunning' hsame
      · exact absurd hsame (hidle i op hop hrunning)
      · exact absurd hsame.symm (hidle j op' hop' hrunning')
      · rfl

/-- What `setLoad` leaves of the operations. -/
theorem of_setLoad {load : Load} {j : Nat} {op' : Operation} (hop : s.operations[i]? = some op)
    (h : (s.setLoad i op load).operations[j]? = some op') :
    (j = i ∧ op' = { op with load := load }) ∨ j ≠ i ∧ s.operations[j]? = some op' := by
  rw [State.setLoad] at h
  by_cases hj : i = j
  · subst hj
    rw [List.getElem?_set_self (List.getElem?_eq_some_iff.mp hop).1] at h
    exact .inl ⟨rfl, (Option.some.inj h).symm⟩
  · rw [List.getElem?_set_ne hj] at h
    exact .inr ⟨fun hsame => hj hsame.symm, h⟩

/-- Each operation is still there, with its generation and its rejected token. -/
theorem exists_setLoad {j : Nat} {op' : Operation} (load : Load) (hop : s.operations[i]? = some op)
    (h : s.operations[j]? = some op') :
    ∃ now, (s.setLoad i op load).operations[j]? = some now ∧ now.generation = op'.generation ∧
      now.rejectedToken = op'.rejectedToken := by
  by_cases hj : i = j
  · subst hj
    cases hop.symm.trans h
    exact ⟨_, List.getElem?_set_self (List.getElem?_eq_some_iff.mp hop).1, rfl, rfl⟩
  · exact ⟨op', by rw [State.setLoad, List.getElem?_set_ne hj, h], rfl, rfl⟩

/-- An operation that is under way goes on or ends, and a session it ends with is its own. -/
theorem Inv.setLoad (hinv : Inv s) (hop : s.operations[i]? = some op)
    (hrunning : op.load.running = true) {load : Load}
    (hsession : ∀ session, load = .resolved (some session) → session.generation = op.generation) :
    Inv (s.setLoad i op load) := by
  have hwas : ∀ (j : Nat) (op' : Operation), (s.setLoad i op load).operations[j]? = some op' →
      op'.load.running = true →
        ∃ old, s.operations[j]? = some old ∧ old.load.running = true ∧
          old.generation = op'.generation := by
    intro j op' hop' hrunning'
    rcases of_setLoad hop hop' with ⟨rfl, rfl⟩ | ⟨-, hold⟩
    · exact ⟨op, hop, hrunning, rfl⟩
    · exact ⟨op', hold, hrunning', rfl⟩
  refine ⟨fun j op' hop' => ?_, fun j op' session hop' hload => ?_, fun call h => ?_,
    fun j op' hop' hrunning' hsame => ?_, fun j k op' op'' hop' hop'' hrun' hrun'' hsame => ?_,
    hinv.returned⟩
  · rcases of_setLoad hop hop' with ⟨-, rfl⟩ | ⟨-, hold⟩
    · exact hinv.generation i op hop
    · exact hinv.generation j op' hold
  · rcases of_setLoad hop hop' with ⟨-, rfl⟩ | ⟨-, hold⟩
    · exact hsession session hload
    · exact hinv.session j op' session hold hload
  · obtain ⟨old, hold, hgeneration, howner⟩ := hinv.call call h
    obtain ⟨now, hnow, hgen, hrejected⟩ := exists_setLoad load hop hold
    exact ⟨now, hnow, hgen.trans hgeneration, fun h => hrejected.trans (howner h)⟩
  · obtain ⟨old, hold, holdRunning, hgeneration⟩ := hwas j op' hop' hrunning'
    exact hinv.pending j old hold holdRunning (hgeneration.trans hsame)
  · obtain ⟨old', hold', hrunOld', hgen'⟩ := hwas j op' hop' hrun'
    obtain ⟨old'', hold'', hrunOld'', hgen''⟩ := hwas k op'' hop'' hrun''
    exact hinv.oneLoad j k old' old'' hold' hold'' hrunOld' hrunOld''
      (hgen'.trans (hsame.trans hgen''.symm))

theorem Inv.finish (hinv : Inv s) (hop : s.operations[call.operation]? = some op)
    (hended : op.load.running = false) : Inv (s.finish c call) := by
  refine { hinv with
    call := fun other h => hinv.call other ((List.eraseIdx_sublist _ _).subset h)
    pending := fun j op' hop' hrunning hsame => ?_ }
  have hpending := hinv.pending j op' hop' hrunning hsame
  rw [State.finish]
  simp only
  split
  · rename_i hown
    -- the operation that ended is not the one under way
    cases hown.2.symm.trans hpending
    cases hop.symm.trans hop'
    rw [hended] at hrunning
    cases hrunning
  · exact hpending

/-- What a call can do when its operation has ended. -/
theorem of_goOn (h : goOn s call op hasUser = some t) :
    op.load.running = false ∧
      (t = s ∨
        (truthy op.rejectedToken = false ∧
          t = getCurrentSession s call.rejectedToken hasUser call.madeAt) ∨
        ∃ session, op.load = .resolved (some session) ∧ call.generation = s.generation ∧
          (call.owner = false → call.rejectedToken = some session.token.text →
            truthy op.rejectedToken = true) ∧
          t = { s with returned := s.returned ++
            [⟨call.rejectedToken, call.madeAt, session, s.generation⟩] }) := by
  rw [goOn] at h
  split at h
  · rename_i hload
    cases h
    exact ⟨by rw [hload]; rfl, .inl rfl⟩
  · rename_i result hload
    refine ⟨by rw [hload]; rfl, ?_⟩
    split at h
    · cases h
      exact .inl rfl
    · rename_i hgeneration
      split at h
      · rename_i hagain
        cases h
        simp only [Bool.and_eq_true, Bool.not_eq_true'] at hagain
        exact .inr (.inl ⟨hagain.1.2, rfl⟩)
      · rename_i hreturns
        split at h
        · rename_i session
          cases h
          refine .inr (.inr ⟨session, hload, not_not.mp hgeneration, fun howner hsame => ?_, rfl⟩)
          by_contra hforced
          refine hreturns ?_
          have htruthy : truthy call.rejectedToken = true := by
            rw [hsame]
            simp [truthy, session.token.nonempty]
          have hforced : truthy op.rejectedToken = false := by simpa using hforced
          rw [howner, htruthy, hforced, hsame]
          simp
        · cases h
          exact .inl rfl
  · cases h

theorem Inv.goOn (hinv : Inv s) (hop : s.operations[i]? = some op)
    (hgeneration : op.generation = call.generation) (h : goOn s call op hasUser = some t) :
    Inv t := by
  obtain ⟨-, rfl | ⟨-, rfl⟩ | ⟨session, hload, hsame, -, rfl⟩⟩ := of_goOn h
  · exact hinv
  · exact hinv.getCurrentSession
  · refine { hinv with returned := fun r hr => ?_ }
    rcases List.mem_append.mp hr with hold | hnew
    · exact hinv.returned r hold
    · rw [List.mem_singleton.mp hnew]
      exact (hinv.session i op session hop hload).trans (hgeneration.trans hsame)

/-- A new generation has no load yet. -/
theorem Inv.advance (hinv : Inv s) (storage : List (String × String)) :
    Inv { s with generation := s.generation + 1, storage := storage } :=
  { hinv with
    generation := fun i op hop => (hinv.generation i op hop).trans (Nat.le_succ _)
    pending := fun i op hop _ hsame => by
      have hle := hinv.generation i op hop
      simp only at hsame
      omega }

theorem storageForGeneration_eq (s : State) (generation : Nat) (write : Write) :
    ∃ storage, storageForGeneration s generation write = { s with storage := storage } := by
  rw [storageForGeneration]
  split
  · exact ⟨_, rfl⟩
  · exact ⟨s.storage, rfl⟩

theorem foldl_storage_eq (writes : List Write) (s : State) :
    ∃ storage, writes.foldl (fun s write => storageForGeneration s s.generation write) s =
      { s with storage := storage } := by
  induction writes generalizing s with
  | nil => exact ⟨s.storage, rfl⟩
  | cons write writes ih =>
      obtain ⟨storage, hfirst⟩ := storageForGeneration_eq s s.generation write
      obtain ⟨storage', hrest⟩ := ih { s with storage := storage }
      exact ⟨storage', by rw [List.foldl_cons, hfirst, hrest]⟩

/-- What a callback of the SDK for the operation `i` does to it. -/
structure Called (s : State) (a : Action) (i : Nat) (t : State) (op : Operation) (load : Load) :
    Prop where
  operation : s.operations[i]? = some op
  running : op.load.running = true
  /-- It ends with the session that was loaded, or a refresh has completed. -/
  result : (t = s.setLoad i op load ∧ ∀ session, load = .resolved (some session) →
      session.generation = op.generation ∧ op.rejectedToken ≠ some session.token.text ∧
        a = .loaded i (some ⟨session.token, false, false⟩)) ∨
    ∃ token, t = { s with refreshes := s.refreshes ++ [(s.clock, token)] }.setLoad i op load ∧
      ∀ session, load = .resolved (some session) → session = ⟨token, op.generation⟩

theorem called_of_loaded {result : Option Loaded} (h : act s (.loaded i result) = some t) :
    ∃ op load, Called s (.loaded i result) i t op load := by
  simp only [act] at h
  split at h
  swap
  · cases h
  rename_i op hop
  split at h
  swap
  · cases h
  rename_i hloading
  have hrunning : op.load.running = true := by
    rw [hloading]
    rfl
  split at h
  · cases h
    exact ⟨op, .rejected, hop, hrunning, .inl ⟨rfl, fun session h => by cases h⟩⟩
  · rename_i token nearExpiry wasRefreshed
    cases wasRefreshed with
    | true =>
        simp only [if_true] at h
        split at h <;> cases h
        · exact ⟨op, _, hop, hrunning, .inr ⟨token, rfl, fun session h => by cases h; rfl⟩⟩
        · exact ⟨op, _, hop, hrunning, .inr ⟨token, rfl, fun session h => by cases h⟩⟩
    | false =>
        simp only [Bool.false_eq_true, if_false] at h
        split at h <;> cases h
        · rename_i hfresh
          simp only [Bool.and_eq_true, Bool.not_eq_true', decide_eq_true_eq] at hfresh
          obtain ⟨rfl, hother⟩ := hfresh
          exact ⟨op, .resolved (some ⟨token, op.generation⟩), hop, hrunning,
            .inl ⟨rfl, fun session h => by cases h; exact ⟨rfl, hother, rfl⟩⟩⟩
        · exact ⟨op, .refreshing, hop, hrunning, .inl ⟨rfl, fun session h => by cases h⟩⟩

theorem called_of_refreshed {result : Option Token} (h : act s (.refreshed i result) = some t) :
    ∃ op load, Called s (.refreshed i result) i t op load := by
  simp only [act] at h
  split at h
  swap
  · cases h
  rename_i op hop
  split at h
  swap
  · cases h
  rename_i hrefreshing
  have hrunning : op.load.running = true := by
    rw [hrefreshing]
    rfl
  split at h <;> cases h
  · exact ⟨op, .rejected, hop, hrunning, .inl ⟨rfl, fun session h => by cases h⟩⟩
  · rename_i token
    exact ⟨op, .resolved (some ⟨token, op.generation⟩), hop, hrunning,
      .inr ⟨token, rfl, fun session h => by cases h; rfl⟩⟩

/-- A call that goes on waits no longer, and its operation has ended. -/
theorem of_resume (hinv : Inv s) (h : act s (.resume c hasUser) = some t) :
    ∃ call op, s.calls[c]? = some call ∧ s.operations[call.operation]? = some op ∧
      op.generation = call.generation ∧
      (call.owner = true → op.rejectedToken = call.rejectedToken) ∧
      goOn (s.finish c call) call op hasUser = some t := by
  simp only [act] at h
  split at h
  swap
  · cases h
  rename_i call hcall
  split at h
  swap
  · cases h
  rename_i op hop
  obtain ⟨op', hop', hgeneration, howner⟩ := hinv.call call (List.mem_of_getElem? hcall)
  cases hop.symm.trans hop'
  exact ⟨call, op, hcall, hop, hgeneration, howner, h⟩

theorem of_write {generation : Nat} {write : Write} (h : act s (.write generation write) = some t) :
    ∃ storage, t = { s with storage := storage } ∧
      (storage ≠ s.storage → generation = s.generation) := by
  simp only [act, storageForGeneration] at h
  split at h
  · split at h <;> cases h
    · rename_i hsame
      exact ⟨_, rfl, fun _ => hsame⟩
    · exact ⟨s.storage, rfl, fun hne => absurd rfl hne⟩
  · cases h

/-- Signing in and out begin a generation. -/
theorem of_signOut {writes : List Write} (h : act s (.signOut writes) = some t) :
    ∃ storage, t = { s with generation := s.generation + 1, storage := storage } := by
  simp only [act] at h
  obtain ⟨storage, hstorage⟩ :=
    foldl_storage_eq writes { s with generation := s.generation + 1 }
  rw [hstorage] at h
  cases h
  exact ⟨storage, rfl⟩

theorem Inv.called {load : Load} (hinv : Inv s) (h : Called s a i t op load) : Inv t := by
  rcases h.result with ⟨rfl, hsession⟩ | ⟨token, rfl, hsession⟩
  · exact hinv.setLoad h.operation h.running fun session hload => (hsession session hload).1
  · have hinv' : Inv { s with refreshes := s.refreshes ++ [(s.clock, token)] } := { hinv with }
    exact hinv'.setLoad h.operation h.running fun session hload => by rw [hsession session hload]

theorem inv_act (hinv : Inv s) (h : act s a = some t) : Inv t := by
  cases a with
  | call rejectedToken hasUser =>
      cases h
      exact hinv.getCurrentSession
  | loaded i result =>
      obtain ⟨op, load, hcalled⟩ := called_of_loaded h
      exact hinv.called hcalled
  | refreshed i result =>
      obtain ⟨op, load, hcalled⟩ := called_of_refreshed h
      exact hinv.called hcalled
  | resume c hasUser =>
      obtain ⟨call, op, -, hop, hgeneration, -, hgoOn⟩ := of_resume hinv h
      exact (hinv.finish hop (of_goOn hgoOn).1).goOn (i := call.operation) hop hgeneration hgoOn
  | write generation write =>
      obtain ⟨storage, rfl, -⟩ := of_write h
      exact { hinv with }
  | signOut writes =>
      obtain ⟨storage, rfl⟩ := of_signOut h
      exact hinv.advance storage
  | signIn =>
      cases h
      exact hinv.advance s.storage

/-! ## Rejected tokens -/

/-- A refresh has completed since for each call whose forced operation ended with its token. -/
structure Honoured (s : State) : Prop where
  waiting : ∀ call ∈ s.calls, ∀ (op : Operation) (session : Session),
    s.operations[call.operation]? = some op → truthy op.rejectedToken = true →
      op.load = .resolved (some session) → call.rejectedToken = some session.token.text →
        RefreshedSince s call.madeAt session.token.text
  returned : HonoursRejections s

theorem Honoured.getCurrentSession (h : Honoured s) (hshare : MayShare s rejectedToken) :
    Honoured (getCurrentSession s rejectedToken hasUser madeAt) := by
  rw [AuthSession.getCurrentSession]
  split
  · rename_i i hshared
    refine ⟨fun call hcall op session hop hforced hload hsame => ?_, h.returned⟩
    rcases List.mem_append.mp hcall with hold | hnew
    · exact h.waiting call hold op session hop hforced hload hsame
    · rw [List.mem_singleton.mp hnew] at hop hsame
      exact absurd hsame (hshare i op session hshared hop hforced hload)
  · refine ⟨fun call hcall op session hop hforced hload hsame => ?_, h.returned⟩
    rcases getElem?_snoc hop with hold | ⟨-, rfl⟩
    · rcases List.mem_append.mp hcall with hwaiting | hnew
      · exact h.waiting call hwaiting op session hold hforced hload hsame
      · rw [List.mem_singleton.mp hnew] at hold
        exact absurd (List.getElem?_eq_some_iff.mp hold).1 (lt_irrefl _)
    · cases hasUser <;> cases hload

theorem Honoured.setLoad (h : Honoured s) (hop : s.operations[i]? = some op) {load : Load}
    (hcalls : ∀ session, load = .resolved (some session) → truthy op.rejectedToken = true →
      ∀ call ∈ s.calls, call.operation = i → call.rejectedToken = some session.token.text →
        RefreshedSince s call.madeAt session.token.text) :
    Honoured (s.setLoad i op load) := by
  refine ⟨fun call hcall op' session hop' hforced hload hsame => ?_, h.returned⟩
  rcases of_setLoad hop hop' with ⟨hi, rfl⟩ | ⟨-, hold⟩
  · exact hcalls session hload hforced call hcall hi hsame
  · exact h.waiting call hcall op' session hold hforced hload hsame

/-- A refresh that completes is one since each call that waits. -/
theorem refreshedSince_snoc {token : Token} (hmade : madeAt < s.clock) :
    RefreshedSince { s with refreshes := s.refreshes ++ [(s.clock, token)] } madeAt token.text :=
  ⟨(s.clock, token), List.mem_append_right _ (List.mem_singleton_self _), hmade, rfl⟩

theorem Honoured.refresh (h : Honoured s) (refresh : Nat × Token) :
    Honoured { s with refreshes := s.refreshes ++ [refresh] } := by
  have hkept : ∀ madeAt text, RefreshedSince s madeAt text →
      RefreshedSince { s with refreshes := s.refreshes ++ [refresh] } madeAt text :=
    fun madeAt text ⟨old, hmem, hold⟩ => ⟨old, List.mem_append_left _ hmem, hold⟩
  exact ⟨fun call hcall op session hop hforced hload hsame =>
      hkept _ _ (h.waiting call hcall op session hop hforced hload hsame),
    fun r hr token hrejected hsame => hkept _ _ (h.returned r hr token hrejected hsame)⟩

theorem Honoured.finish (h : Honoured s) : Honoured (s.finish c call) :=
  ⟨fun other hother => h.waiting other ((List.eraseIdx_sublist _ _).subset hother), h.returned⟩

theorem MayShare.finish (h : MayShare s rejectedToken) :
    MayShare (s.finish c call) rejectedToken := by
  intro i op session hshared hop
  refine h i op session ?_ hop
  obtain ⟨hpending, op', hop', hgeneration⟩ := of_shared hshared
  have hbefore : s.pending = some i := by
    rw [State.finish] at hpending
    simp only at hpending
    split at hpending
    · cases hpending
    · exact hpending
  have hop' : s.operations[i]? = some op' := hop'
  have hgeneration : op'.generation = s.generation := hgeneration
  simp [State.shared, hbefore, Option.filter, hop', hgeneration]

/-- The moments at which the waiting calls were made are past. -/
def Made (s : State) : Prop := ∀ call ∈ s.calls, call.madeAt < s.clock

theorem made_getCurrentSession (hmade : ∀ call ∈ s.calls, call.madeAt ≤ s.clock)
    (hnew : madeAt ≤ s.clock) :
    ∀ call ∈ (getCurrentSession s rejectedToken hasUser madeAt).calls, call.madeAt ≤ s.clock := by
  rw [AuthSession.getCurrentSession]
  split
  all_goals
    intro call hcall
    rcases List.mem_append.mp hcall with hold | hlast
    · exact hmade call hold
    · rw [List.mem_singleton.mp hlast]
      exact hnew

theorem made_act (hinv : Inv s) (hmade : Made s) (h : act s a = some t) :
    ∀ call ∈ t.calls, call.madeAt ≤ s.clock := by
  have hold : ∀ call ∈ s.calls, call.madeAt ≤ s.clock := fun call hcall => (hmade call hcall).le
  have hcalled : ∀ {i op load}, Called s a i t op load → ∀ call ∈ t.calls, call.madeAt ≤ s.clock :=
    fun hcalled => by rcases hcalled.result with ⟨rfl, -⟩ | ⟨token, rfl, -⟩ <;> exact hold
  cases a with
  | call rejectedToken hasUser =>
      cases h
      exact made_getCurrentSession hold le_rfl
  | loaded i result =>
      obtain ⟨op, load, hload⟩ := called_of_loaded h
      exact hcalled hload
  | refreshed i result =>
      obtain ⟨op, load, hload⟩ := called_of_refreshed h
      exact hcalled hload
  | resume c hasUser =>
      obtain ⟨call, op, hcall, -, -, -, hgoOn⟩ := of_resume hinv h
      have hrest : ∀ other ∈ (s.finish c call).calls, other.madeAt ≤ s.clock := fun other hother =>
        hold other ((List.eraseIdx_sublist _ _).subset hother)
      obtain ⟨-, rfl | ⟨-, rfl⟩ | ⟨session, -, -, -, rfl⟩⟩ := of_goOn hgoOn
      · exact hrest
      · exact made_getCurrentSession hrest (hold call (List.mem_of_getElem? hcall))
      · exact hrest
  | write generation write =>
      obtain ⟨storage, rfl, -⟩ := of_write h
      exact hold
  | signOut writes =>
      obtain ⟨storage, rfl⟩ := of_signOut h
      exact hold
  | signIn =>
      cases h
      exact hold

theorem Honoured.called {load : Load} (h : Honoured s) (hmade : Made s) (hok : InOrder s a)
    (hcalled : Called s a i t op load) : Honoured t := by
  rcases hcalled.result with ⟨rfl, hloaded⟩ | ⟨token, rfl, hrefreshed⟩
  · refine h.setLoad hcalled.operation fun session hload hforced call hcall hi hsame => ?_
    obtain ⟨-, hother, rfl⟩ := hloaded session hload
    exact absurd hsame (hok op hcalled.operation hforced hother call hcall hi)
  · refine (h.refresh (s.clock, token)).setLoad hcalled.operation
      fun session hload _ call hcall _ _ => ?_
    rw [hrefreshed session hload]
    exact refreshedSince_snoc (hmade call hcall)

/-- A call returns its rejected token only from an operation that was forced. -/
theorem Honoured.resume (hinv : Inv s) (h : Honoured s) (hok : InOrder s (.resume c hasUser))
    (hact : act s (.resume c hasUser) = some t) : Honoured t := by
  obtain ⟨call, op, hcall, hop, -, howner, hgoOn⟩ := of_resume hinv hact
  have hfinished : Honoured (s.finish c call) := h.finish
  obtain ⟨-, rfl | ⟨hunforced, rfl⟩ | ⟨session, hload, -, hjoined, rfl⟩⟩ := of_goOn hgoOn
  · exact hfinished
  · exact hfinished.getCurrentSession (hok call op hcall hop hunforced).finish
  · refine ⟨hfinished.waiting, fun r hr token hrejected hsame => ?_⟩
    rcases List.mem_append.mp hr with hold | hnew
    · exact h.returned r hold token hrejected hsame
    · obtain rfl := List.mem_singleton.mp hnew
      subst hsame
      have hrejected : call.rejectedToken = some session.token.text := hrejected
      have hforced : truthy op.rejectedToken = true := by
        by_cases hown : call.owner = true
        · rw [howner hown, hrejected]
          simp [truthy, session.token.nonempty]
        · exact hjoined (by simpa using hown) hrejected
      exact h.waiting call (List.mem_of_getElem? hcall) op session hop hforced hload hrejected

theorem honoured_act (hinv : Inv s) (hmade : Made s) (h : Honoured s) (hok : InOrder s a)
    (hact : act s a = some t) : Honoured t := by
  cases a with
  | call rejectedToken hasUser =>
      cases hact
      exact h.getCurrentSession hok
  | loaded i result =>
      obtain ⟨op, load, hcalled⟩ := called_of_loaded hact
      exact h.called hmade hok hcalled
  | refreshed i result =>
      obtain ⟨op, load, hcalled⟩ := called_of_refreshed hact
      exact h.called hmade hok hcalled
  | resume c hasUser => exact h.resume hinv hok hact
  | write generation write =>
      obtain ⟨storage, rfl, -⟩ := of_write hact
      exact ⟨h.waiting, h.returned⟩
  | signOut writes =>
      obtain ⟨storage, rfl⟩ := of_signOut hact
      exact ⟨h.waiting, h.returned⟩
  | signIn =>
      cases hact
      exact ⟨h.waiting, h.returned⟩

/-! ## Runs -/

theorem of_step (h : step s a = some t) :
    ∃ t', act s a = some t' ∧ t = { t' with clock := s.clock + 1 } := by
  obtain ⟨t', hact, rfl⟩ := Option.map_eq_some_iff.mp h
  exact ⟨t', hact, rfl⟩

theorem inv_step : Preserved step anyStep fun s => Inv s ∧ Made s := by
  rintro s a t ⟨hinv, hmade⟩ - h
  obtain ⟨t', hact, rfl⟩ := of_step h
  have hinv' := inv_act hinv hact
  exact ⟨{ hinv' with }, fun call hcall => Nat.lt_succ_of_le (made_act hinv hmade hact call hcall)⟩

theorem inv_new (storage : List (String × String)) : Inv (.new storage) := by
  constructor <;> simp [State.new]

/-- **Loading the session of a login.** In every order of calls, callbacks and logins a call returns
a session of the generation that is current then, each generation has one load under way at most,
and no earlier generation changes the storage. When all steps are in order as well, a call gets back
the token it rejected only if a refresh produced it again. -/
theorem session_kept_apart {storage : List (String × String)}
    (hrun : Run step anyStep (.new storage) s) :
    KeptApart s ∧ (Run step InOrder (.new storage) s → HonoursRejections s) := by
  have hinv := hrun.invariant inv_step ⟨inv_new storage, by simp [Made, State.new]⟩
  refine ⟨⟨hinv.1.returned, hinv.1.oneLoad, fun generation write t h hchanged => ?_⟩,
    fun hrun => ?_⟩
  · obtain ⟨t', hact, rfl⟩ := of_step h
    obtain ⟨storage, rfl, hgeneration⟩ := of_write hact
    exact hgeneration hchanged
  · have hall := hrun.invariant (I := fun s => (Inv s ∧ Made s) ∧ Honoured s) ?_
      ⟨⟨inv_new storage, by simp [Made, State.new]⟩, by simp [State.new],
        by simp [HonoursRejections, State.new]⟩
    · exact hall.2.returned
    · rintro s a t ⟨hinv, hhonoured⟩ hok h
      refine ⟨inv_step s a t hinv trivial h, ?_⟩
      obtain ⟨t', hact, rfl⟩ := of_step h
      have hhonoured' := honoured_act hinv.1 hinv.2 hhonoured hok hact
      exact ⟨hhonoured'.waiting, hhonoured'.returned⟩

section Examples

def oldToken : Token := ⟨"old", by decide⟩

def newToken : Token := ⟨"new", by decide⟩

/-- A call with a rejected token starts a load, and the refresh produces another token. -/
def forced : List Action :=
  [.call (some "old") true, .loaded 0 (some ⟨oldToken, false, false⟩), .refreshed 0 (some newToken),
    .resume 0 true]

/-- A late rejection of an older token starts a load, and a call that had the current one rejected
shares it. -/
def sharedForce : List Action :=
  [.call (some "old") true, .call (some "new") true, .loaded 0 (some ⟨newToken, false, false⟩),
    .resume 0 true, .resume 0 true]

def after (actions : List Action) : State := (runList step (.new []) actions).getD (.new [])

theorem session_kept_apart_forced :
    KeptApart (after forced) ∧ HonoursRejections (after forced) := by
  have hcall : InOrder (.new []) (.call (some "old") true) := by
    intro i op session hshared
    cases hshared
  have hloaded : InOrder (after (forced.take 1)) (.loaded 0 (some ⟨oldToken, false, false⟩)) := by
    intro op hop _ hother
    cases hop
    exact absurd rfl hother
  have hrefreshed : InOrder (after (forced.take 2)) (.refreshed 0 (some newToken)) := trivial
  have hresumed : InOrder (after (forced.take 3)) (.resume 0 true) := by
    intro call op hcall hop hunforced
    cases hcall
    cases hop
    exact absurd hunforced (by decide)
  have hrun : Run step InOrder (.new []) (after forced) :=
    ((((Run.refl (State.new [])).snoc hcall rfl).snoc hloaded rfl).snoc hrefreshed rfl).snoc
      hresumed rfl
  have hkept := session_kept_apart (hrun.mono fun _ _ _ => trivial)
  exact ⟨hkept.1, hkept.2 hrun⟩

/-- No refresh was asked for. -/
theorem sharedForce_returns_rejected :
    Run step anyStep (.new []) (after sharedForce) ∧ ¬ HonoursRejections (after sharedForce) := by
  refine ⟨Run.of_runList sharedForce rfl, fun h => ?_⟩
  obtain ⟨refresh, hmem, -⟩ := h ⟨some "new", 1, ⟨newToken, 0⟩, 0⟩ (by decide) "new" rfl rfl
  have hnone : (after sharedForce).refreshes = [] := rfl
  rw [hnone] at hmem
  cases hmem

end Examples

end Sulion.Frontend.AuthSession
