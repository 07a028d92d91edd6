import Mathlib.Data.List.MinMax
import Sulion.Lib.Transition

set_option autoImplicit false

/-! # The pool of language servers

The requests that share the client slots of `LspManagerInner`. A request holds the lock of the map
for one access at a time, and the lock of a slot while it starts a server in it; between two
accesses the others go on. The steps are those of any interleaving.

The records of the servers' health are not part of the state: they are only reported.
-/

namespace Sulion.CodeIntel.ServerPool

open Transition

abbrev SlotId := Nat

abbrev ServerId := Nat

abbrev TaskId := Nat

/-- An `LspClientSlot`; `holder` is the request that holds the lock of `client`. -/
structure LspClientSlot where
  client : Option ServerId := none
  holder : Option TaskId := none
  lastUsed : Nat
  deriving DecidableEq

/-- Where a request is. -/
inductive Pc (κ : Type)
  /-- `client_slot` is next. -/
  | look
  /-- It waits for the lock of a slot that it found. -/
  | peek (slot : SlotId)
  /-- `evict_expired_clients` is next; the time is read already. -/
  | scan (now : Nat)
  /-- `remove_clients` is next. -/
  | remove (keys : List κ)
  /-- The slots that it has removed, and has to clear. -/
  | clear (slots : List SlotId)
  /-- Is there room? -/
  | check
  /-- `evict_oldest_client` is next. -/
  | pick
  /-- `client_slot_or_insert` is next. -/
  | insert
  /-- It waits for the lock of its slot. -/
  | acquire (slot : SlotId)
  /-- It starts a server, and holds the lock of its slot. -/
  | spawning (slot : SlotId)
  /-- It waits for an answer of the server that it got from a slot. -/
  | served (slot : SlotId) (server : ServerId)
  /-- It failed, and `reset_client` is next. -/
  | reset (slot : SlotId) (server : Option ServerId)
  /-- It waits for the lock of the slot that `reset_client` has taken out of the map. -/
  | clearReset (slot : SlotId) (server : Option ServerId) (taken : SlotId)
  deriving DecidableEq

structure Request (κ : Type) where
  key : κ
  pc : Pc κ
  deriving DecidableEq

structure State (κ : Type) where
  clock : Nat
  clients : List (κ × SlotId)
  slots : SlotId → LspClientSlot
  nextSlot : SlotId
  nextServer : ServerId
  tasks : TaskId → Option (Request κ)

def State.init (κ : Type) : State κ where
  clock := 0
  clients := []
  slots _ := { lastUsed := 0 }
  nextSlot := 0
  nextServer := 0
  tasks _ := none

section

variable {κ : Type} [DecidableEq κ]

/-- `clients.get`. -/
def get (clients : List (κ × SlotId)) (key : κ) : Option SlotId :=
  (clients.find? fun entry => entry.1 = key).map Prod.snd

def keysOf (clients : List (κ × SlotId)) : List κ := clients.map Prod.fst

/-- `clients.remove`. -/
def erase (clients : List (κ × SlotId)) (key : κ) : List (κ × SlotId) :=
  clients.filter fun entry => entry.1 ≠ key

/-- The slots that `remove_clients` takes out, and the map without them. -/
def removeKeys (clients : List (κ × SlotId)) : List κ → List SlotId × List (κ × SlotId)
  | [] => ([], clients)
  | key :: keys =>
      match get clients key with
      | some slot =>
          let rest := removeKeys (erase clients key) keys
          (slot :: rest.1, rest.2)
      | none => removeKeys clients keys

/-- `eviction_score`: a slot that is locked or empty has none. -/
def evictionScore (slot : LspClientSlot) : Option Nat :=
  if slot.holder = none ∧ slot.client.isSome then some slot.lastUsed else none

/-- The keys of the slots that may be evicted for a request. -/
def evictable (s : State κ) (key : κ) : List κ :=
  keysOf (s.clients.filter fun entry =>
    entry.1 ≠ key && (evictionScore (s.slots entry.2)).isSome)

def expired (idleTimeout : Nat) (s : State κ) (key : κ) (now : Nat) : List κ :=
  keysOf (s.clients.filter fun entry => entry.1 ≠ key &&
    (evictionScore (s.slots entry.2)).any fun lastUsed => decide (idleTimeout ≤ now - lastUsed))

/-- `min_by_key` over the keys of slots that could be locked. -/
def oldest (s : State κ) (seen : List κ) : Option κ :=
  seen.argmin fun key => ((get s.clients key).map fun x => (s.slots x).lastUsed).getD 0

/-- The request goes on elsewhere. -/
def State.goto (s : State κ) (t : TaskId) (key : κ) (pc : Pc κ) : State κ :=
  { s with tasks := Function.update s.tasks t (some ⟨key, pc⟩) }

/-- The request is over. -/
def State.finish (s : State κ) (t : TaskId) : State κ :=
  { s with tasks := Function.update s.tasks t none }

def State.setSlot (s : State κ) (x : SlotId) (slot : LspClientSlot) : State κ :=
  { s with slots := Function.update s.slots x slot }

def State.touch (s : State κ) (x : SlotId) : State κ :=
  s.setSlot x { s.slots x with lastUsed := s.clock }

/-- `slot.clear()`. -/
def State.clearSlot (s : State κ) (x : SlotId) : State κ :=
  s.setSlot x { s.slots x with client := none }

/-- A step of a request, or of the clock. What the request does not decide is part of it: which
slots nobody holds for a moment while the map is scanned, and what a server answers. -/
inductive Action (κ : Type)
  | tick (elapsed : Nat)
  | arrive (t : TaskId) (key : κ)
  | look (t : TaskId)
  | peek (t : TaskId)
  | scan (t : TaskId) (keys : List κ)
  | remove (t : TaskId)
  | clear (t : TaskId)
  | check (t : TaskId)
  | pick (t : TaskId) (seen : List κ)
  | insert (t : TaskId)
  | acquire (t : TaskId)
  | spawned (t : TaskId) (ok : Bool)
  | answered (t : TaskId) (ok : Bool)
  | reset (t : TaskId)
  | clearReset (t : TaskId)
  deriving DecidableEq

/-- The server of a slot whose lock is free, if it has one, is used; else the request goes on. -/
def useOr (s : State κ) (t : TaskId) (key : κ) (x : SlotId) (otherwise : State κ) :
    Option (State κ) :=
  if (s.slots x).holder = none then
    match (s.slots x).client with
    | some server => some ((s.touch x).goto t key (.served x server))
    | none => some otherwise
  else none

variable (maxActiveServers idleTimeout : Nat)

def step (s : State κ) : Action κ → Option (State κ)
  | .tick elapsed => some { s with clock := s.clock + elapsed }
  | .arrive t key => if s.tasks t = none then some (s.goto t key .look) else none
  | .look t =>
      match s.tasks t with
      | some ⟨key, .look⟩ =>
          match get s.clients key with
          | some x => some (s.goto t key (.peek x))
          | none => some (s.goto t key (.scan s.clock))
      | _ => none
  | .peek t =>
      match s.tasks t with
      | some ⟨key, .peek x⟩ => useOr s t key x (s.goto t key (.scan s.clock))
      | _ => none
  | .scan t keys =>
      match s.tasks t with
      | some ⟨key, .scan now⟩ =>
          if keys.Nodup ∧ keys ⊆ expired idleTimeout s key now then
            some (s.goto t key (.remove keys))
          else none
      | _ => none
  | .remove t =>
      match s.tasks t with
      | some ⟨key, .remove keys⟩ =>
          let removed := removeKeys s.clients keys
          some ({ s with clients := removed.2 }.goto t key (.clear removed.1))
      | _ => none
  | .clear t =>
      match s.tasks t with
      | some ⟨key, .clear []⟩ => some (s.goto t key .check)
      | some ⟨key, .clear (x :: slots)⟩ =>
          if (s.slots x).holder = none then some ((s.clearSlot x).goto t key (.clear slots))
          else none
      | _ => none
  | .check t =>
      match s.tasks t with
      | some ⟨key, .check⟩ =>
          if key ∉ keysOf s.clients ∧ s.clients.length ≥ maxActiveServers then
            some (s.goto t key .pick)
          else some (s.goto t key .insert)
      | _ => none
  | .pick t seen =>
      match s.tasks t with
      | some ⟨key, .pick⟩ =>
          if seen ⊆ evictable s key then
            match oldest s seen with
            | some k => some (s.goto t key (.remove [k]))
            | none => some (s.finish t)
          else none
      | _ => none
  | .insert t =>
      match s.tasks t with
      | some ⟨key, .insert⟩ =>
          match get s.clients key with
          | some x => some (s.goto t key (.acquire x))
          | none =>
              let x := s.nextSlot
              some (({ s with
                clients := s.clients ++ [(key, x)]
                nextSlot := x + 1 }.setSlot x { lastUsed := s.clock }).goto t key (.acquire x))
      | _ => none
  | .acquire t =>
      match s.tasks t with
      | some ⟨key, .acquire x⟩ =>
          useOr s t key x
            ((s.setSlot x { s.slots x with holder := some t }).goto t key (.spawning x))
      | _ => none
  | .spawned t ok =>
      match s.tasks t with
      | some ⟨key, .spawning x⟩ =>
          if ok then
            let server := s.nextServer
            some (({ s with nextServer := server + 1 }.setSlot x
              ⟨some server, none, s.clock⟩).goto t key (.served x server))
          else
            some ((s.setSlot x { s.slots x with holder := none }).goto t key (.reset x none))
      | _ => none
  | .answered t ok =>
      match s.tasks t with
      | some ⟨key, .served x server⟩ =>
          if ok then some (s.finish t) else some (s.goto t key (.reset x (some server)))
      | _ => none
  | .reset t =>
      match s.tasks t with
      | some ⟨key, .reset x server⟩ =>
          match get s.clients key with
          | some taken =>
              some ({ s with clients := erase s.clients key }.goto t key
                (.clearReset x server taken))
          | none => some (s.finish t)
      | _ => none
  | .clearReset t =>
      match s.tasks t with
      | some ⟨_, .clearReset _ _ taken⟩ =>
          if (s.slots taken).holder = none then some ((s.clearSlot taken).finish t) else none
      | _ => none

end

/-! ## The claims on a step -/

section

variable {κ : Type} [DecidableEq κ]

/-- Of a failing request: what it removes is the server that it was using, or no server. -/
def Owned (s : State κ) : Action κ → Prop
  | .reset t => ∀ key x server, s.tasks t = some ⟨key, .reset x server⟩ →
      ∀ y v, get s.clients key = some y → (s.slots y).client = some v → server = some v
  | .clearReset t => ∀ key x server y, s.tasks t = some ⟨key, .clearReset x server y⟩ →
      ∀ v, (s.slots y).client = some v → server = some v
  | _ => True

/-- The pool is within its bound behind the step, and the step takes no other request's server. -/
structure Respects (maxActiveServers : Nat) (s : State κ) (a : Action κ) (s' : State κ) :
    Prop where
  bound : s'.clients.length ≤ maxActiveServers
  owned : Owned s a

/-- A slot is inserted while there is room for it, and what a failing request takes out and clears
is empty, or the slot that it got its server from. -/
def Timely (maxActiveServers : Nat) (s : State κ) : Action κ → Prop
  | .insert t => ∀ key, s.tasks t = some ⟨key, .insert⟩ →
      key ∈ keysOf s.clients ∨ s.clients.length < maxActiveServers
  | .reset t => ∀ key x server, s.tasks t = some ⟨key, .reset x server⟩ →
      ∀ y, get s.clients key = some y →
        (s.slots y).client = none ∨ (y = x ∧ server ≠ none)
  | .clearReset t => ∀ key x server y, s.tasks t = some ⟨key, .clearReset x server y⟩ →
      (s.slots y).client = none ∨ (y = x ∧ server ≠ none)
  | _ => True

end

/-! ## The invariant -/

section

variable {κ : Type}

/-- What has become of a slot: `taken t` is out of the map, for `t` to clear. -/
inductive Place
  | unused
  | inMap
  | taken (t : TaskId)
  | cleared

/-- Where the slots are, and the slot that each server was started in. -/
structure Ghost where
  place : SlotId → Place
  home : ServerId → SlotId

/-- Nobody has cleared the slot so far. -/
def Live (p : Place) : Prop := p = .inMap ∨ ∃ t, p = .taken t

/-- The server was started in the slot, and is there until the slot is cleared. -/
structure Served (g : Ghost) (s : State κ) (x : SlotId) (v : ServerId) : Prop where
  home : g.home v = x
  known : v < s.nextServer
  used : g.place x ≠ .unused
  holds : Live (g.place x) → (s.slots x).client = some v

def PcOk (g : Ghost) (s : State κ) (t : TaskId) : Pc κ → Prop
  | .peek x => g.place x ≠ .unused
  | .acquire x => g.place x ≠ .unused
  | .spawning x =>
      g.place x ≠ .unused ∧ (s.slots x).holder = some t ∧ (s.slots x).client = none
  | .served x v => Served g s x v
  | .reset x server => ∀ v, server = some v → Served g s x v
  | .clear slots => slots.Nodup ∧ ∀ x ∈ slots, g.place x = .taken t
  | .clearReset x server y => (∀ v, server = some v → Served g s x v) ∧ g.place y = .taken t
  | _ => True

structure Inv (g : Ghost) (s : State κ) : Prop where
  distinct : (s.clients.map Prod.snd).Nodup
  placed : ∀ e ∈ s.clients, g.place e.2 = .inMap
  fresh : ∀ x, s.nextSlot ≤ x → g.place x = .unused
  homes : ∀ x v, (s.slots x).client = some v → g.home v = x ∧ v < s.nextServer
  tasks : ∀ t req, s.tasks t = some req → PcOk g s t req.pc

variable {g g' : Ghost} {s s' : State κ} {t u : TaskId} {pc : Pc κ} {x : SlotId} {v : ServerId}

/-- What a step leaves to a request that does not take it. -/
structure Compat (g g' : Ghost) (s s' : State κ) (u : TaskId) : Prop where
  used : ∀ x, g.place x ≠ .unused → g'.place x ≠ .unused
  taken : ∀ x, g.place x = .taken u → g'.place x = .taken u
  live : ∀ x, g.place x ≠ .unused → Live (g'.place x) → Live (g.place x)
  client : ∀ x v, g.place x ≠ .unused → Live (g'.place x) → (s.slots x).client = some v →
    (s'.slots x).client = some v
  spawning : ∀ x, g.place x ≠ .unused → (s.slots x).holder = some u → (s.slots x).client = none →
    (s'.slots x).holder = some u ∧ (s'.slots x).client = none
  home : ∀ v < s.nextServer, g'.home v = g.home v
  known : s.nextServer ≤ s'.nextServer

theorem Served.compat (h : Served g s x v) (hc : Compat g g' s s' u) : Served g' s' x v where
  home := (hc.home v h.known).trans h.home
  known := h.known.trans_le hc.known
  used := hc.used x h.used
  holds hlive := hc.client x v h.used hlive (h.holds (hc.live x h.used hlive))

theorem PcOk.compat (h : PcOk g s u pc) (hc : Compat g g' s s' u) : PcOk g' s' u pc := by
  cases pc with
  | peek x => exact hc.used x h
  | acquire x => exact hc.used x h
  | spawning x => exact ⟨hc.used x h.1, hc.spawning x h.1 h.2.1 h.2.2⟩
  | served x v => exact Served.compat h hc
  | reset x server => exact fun v hv => (h v hv).compat hc
  | clear slots => exact ⟨h.1, fun x hx => hc.taken x (h.2 x hx)⟩
  | clearReset x server y => exact ⟨fun v hv => (h.1 v hv).compat hc, hc.taken y h.2⟩
  | _ => trivial

/-- A slot is changed in a way that its other requests do not see. -/
theorem Compat.of_slot {slot : LspClientSlot} (hslots : s'.slots = Function.update s.slots x slot)
    (hplace : ∀ y, g.place y ≠ .unused → g'.place y = g.place y)
    (hclient : g.place x ≠ .unused → ∀ v, (s.slots x).client = some v → slot.client = some v)
    (hspawning : g.place x ≠ .unused → (s.slots x).holder = some u → (s.slots x).client = none →
      slot.holder = some u ∧ slot.client = none)
    (hhome : ∀ v < s.nextServer, g'.home v = g.home v) (hknown : s.nextServer ≤ s'.nextServer) :
    Compat g g' s s' u where
  used y hy := by rwa [hplace y hy]
  taken y hy := by rwa [hplace y (by rw [hy]; nofun)]
  live y hy hlive := by rwa [hplace y hy] at hlive
  client y v hy _ hv := by
    rw [hslots, Function.update_apply]
    split
    · rename_i heq
      subst heq
      exact hclient hy v hv
    · exact hv
  spawning y hy hholder hnone := by
    rw [hslots, Function.update_apply]
    split
    · rename_i heq
      subst heq
      exact hspawning hy hholder hnone
    · exact ⟨hholder, hnone⟩
  home := hhome
  known := hknown

/-- **The step rule**: the request that takes the step is where it may be, and the others are not
touched. -/
theorem Inv.advance {new : Option (Request κ)} (h : Inv g s)
    (htasks : s'.tasks = Function.update s.tasks t new)
    (hcompat : ∀ u, u ≠ t → Compat g g' s s' u)
    (hnew : ∀ req, new = some req → PcOk g' s' t req.pc)
    (hdistinct : (s'.clients.map Prod.snd).Nodup)
    (hplaced : ∀ e ∈ s'.clients, g'.place e.2 = .inMap)
    (hfresh : ∀ x, s'.nextSlot ≤ x → g'.place x = .unused)
    (hhomes : ∀ x v, (s'.slots x).client = some v → g'.home v = x ∧ v < s'.nextServer) :
    Inv g' s' where
  distinct := hdistinct
  placed := hplaced
  fresh := hfresh
  homes := hhomes
  tasks u req hu := by
    rw [htasks, Function.update_apply] at hu
    split at hu
    · rename_i heq
      exact heq ▸ hnew req hu
    · rename_i hne
      exact (h.tasks u req hu).compat (hcompat u hne)

theorem Compat.of_same (hslots : s'.slots = s.slots) (hserver : s'.nextServer = s.nextServer) :
    Compat g g s s' u where
  used _ h := h
  taken _ h := h
  live _ _ h := h
  client _ _ _ _ h := by rwa [hslots]
  spawning _ _ hholder hclient := by
    rw [hslots]
    exact ⟨hholder, hclient⟩
  home _ _ := rfl
  known := hserver.ge

theorem touch_slots (s : State κ) (x y : SlotId) :
    ((s.touch x).slots y).client = (s.slots y).client ∧
      ((s.touch x).slots y).holder = (s.slots y).holder := by
  by_cases hy : y = x
  · subst hy
    simp [State.touch, State.setSlot]
  · simp [State.touch, State.setSlot, hy]

/-- The server of a slot serves whoever finds it. -/
theorem Inv.served (h : Inv g s) (hused : g.place x ≠ .unused)
    (hclient : (s.slots x).client = some v) : Served g s x v where
  home := (h.homes x v hclient).1
  known := (h.homes x v hclient).2
  used := hused
  holds _ := hclient

end

/-! ## Steps -/

section

variable {κ : Type} {g g' : Ghost} {s s' : State κ} {t u : TaskId} {key : κ} {pc : Pc κ}
  {x : SlotId} {v : ServerId}

theorem Inv.goto (h : Inv g s) (hpc : PcOk g s t pc) : Inv g (s.goto t key pc) :=
  h.advance rfl (fun _ _ => .of_same rfl rfl)
    (fun req hreq => by
      cases hreq
      exact hpc.compat (.of_same rfl rfl))
    h.distinct h.placed h.fresh h.homes

theorem Inv.finish (h : Inv g s) (t : TaskId) : Inv g (s.finish t) :=
  h.advance rfl (fun _ _ => .of_same rfl rfl) (fun _ hreq => nomatch hreq)
    h.distinct h.placed h.fresh h.homes

theorem Inv.touch (h : Inv g s) (x : SlotId) : Inv g (s.touch x) where
  distinct := h.distinct
  placed := h.placed
  fresh := h.fresh
  homes y v hv := h.homes y v ((touch_slots s x y).1 ▸ hv)
  tasks u req hu := (h.tasks u req hu).compat (.of_slot rfl (fun _ _ => rfl) (fun _ _ hv => hv)
    (fun _ hholder hclient => ⟨hholder, hclient⟩) (fun _ _ => rfl) le_rfl)

theorem Inv.useOr (h : Inv g s) (hused : g.place x ≠ .unused) {otherwise : State κ}
    (hother : (s.slots x).holder = none → (s.slots x).client = none → Inv g otherwise)
    (hstep : useOr s t key x otherwise = some s') : Inv g s' := by
  rw [ServerPool.useOr] at hstep
  split at hstep
  · rename_i hfree
    cases hclient : (s.slots x).client with
    | some server =>
        rw [hclient] at hstep
        cases hstep
        refine (h.touch x).goto ((h.touch x).served hused ?_)
        rw [(touch_slots s x x).1, hclient]
    | none =>
        rw [hclient] at hstep
        cases hstep
        exact hother hfree hclient
  · cases hstep

/-- Slots are taken out of the map, for the request to clear. -/
theorem Inv.takeOut (h : Inv g s) {removed : List SlotId} {rest : List (κ × SlotId)}
    (hsub : rest.Sublist s.clients) (hfrom : ∀ x ∈ removed, ∃ key, (key, x) ∈ s.clients)
    (hout : ∀ e ∈ rest, e.2 ∉ removed)
    (hpc : ∀ g' s', Compat g g' s s' t → (∀ x ∈ removed, g'.place x = .taken t) →
      PcOk g' s' t pc) :
    ∃ g', Inv g' ({ s with clients := rest }.goto t key pc) := by
  have hplace (x : SlotId) (hx : x ∈ removed) : g.place x = .inMap := by
    obtain ⟨k, hk⟩ := hfrom x hx
    exact h.placed (k, x) hk
  let g' : Ghost := { g with place := fun x => if x ∈ removed then .taken t else g.place x }
  have hsame (x : SlotId) (hx : x ∉ removed) : g'.place x = g.place x := if_neg hx
  have htaken (x : SlotId) (hx : x ∈ removed) : g'.place x = .taken t := if_pos hx
  have hcompat (u : TaskId) : Compat g g' s ({ s with clients := rest }.goto t key pc) u := by
    refine
      { used := fun x hx => ?_
        taken := fun x hx => ?_
        live := fun x _ hlive => ?_
        client := fun _ _ _ _ hv => hv
        spawning := fun _ _ hholder hclient => ⟨hholder, hclient⟩
        home := fun _ _ => rfl
        known := le_rfl }
    · by_cases hmem : x ∈ removed
      · rw [htaken x hmem]
        nofun
      · rwa [hsame x hmem]
    · have hmem : x ∉ removed := fun hmem => by
        rw [hplace x hmem] at hx
        cases hx
      rwa [hsame x hmem]
    · by_cases hmem : x ∈ removed
      · exact .inl (hplace x hmem)
      · rwa [hsame x hmem] at hlive
  refine ⟨g', h.advance rfl (fun u _ => hcompat u) (fun req hreq => ?_)
    ((hsub.map Prod.snd).nodup h.distinct) (fun e he => ?_) (fun x hx => ?_) h.homes⟩
  · cases hreq
    exact hpc _ _ (hcompat t) htaken
  · rw [hsame e.2 (hout e he)]
    exact h.placed e (hsub.subset he)
  · have hunused := h.fresh x hx
    have hmem : x ∉ removed := fun hmem => by
      rw [hplace x hmem] at hunused
      cases hunused
    rw [hsame x hmem, hunused]

/-- A slot that the request has taken out is cleared. -/
theorem Inv.cleared (h : Inv g s) (htaken : g.place x = .taken t)
    (hfree : (s.slots x).holder = none) {new : Option (Request κ)}
    (hnew : ∀ g' s', (∀ y, y ≠ x → g'.place y = g.place y) →
      ∀ req, new = some req → PcOk g' s' t req.pc) :
    ∃ g', Inv g' { s.clearSlot x with tasks := Function.update s.tasks t new } := by
  let g' : Ghost := { g with place := Function.update g.place x .cleared }
  have hself : g'.place x = .cleared := Function.update_self _ _ _
  have hsame (y : SlotId) (hy : y ≠ x) : g'.place y = g.place y := Function.update_of_ne hy _ _
  have hslot (y : SlotId) (hy : y ≠ x) : (s.clearSlot x).slots y = s.slots y :=
    Function.update_of_ne hy _ _
  have hcleared : ((s.clearSlot x).slots x).client = none := by
    simp [State.clearSlot, State.setSlot]
  refine ⟨g', h.advance rfl (fun u hu => ?_) (fun req hreq => hnew g' _ hsame req hreq) h.distinct
    (fun e he => ?_) (fun y hy => ?_) (fun y v hv => ?_)⟩
  · refine
      { used := fun y hy => ?_
        taken := fun y hy => ?_
        live := fun y _ hlive => ?_
        client := fun y v _ hlive hv => ?_
        spawning := fun y _ hholder hclient => ?_
        home := fun _ _ => rfl
        known := le_rfl }
    · by_cases heq : y = x
      · rw [heq, hself]
        nofun
      · rwa [hsame y heq]
    · have hne : y ≠ x := by
        rintro rfl
        rw [htaken] at hy
        cases hy
        exact hu rfl
      rwa [hsame y hne]
    · by_cases heq : y = x
      · exact heq ▸ .inr ⟨t, htaken⟩
      · rwa [hsame y heq] at hlive
    · have hne : y ≠ x := by
        rintro rfl
        rw [hself] at hlive
        rcases hlive with hlive | ⟨_, hlive⟩ <;> cases hlive
      exact (congrArg LspClientSlot.client (hslot y hne)).trans hv
    · have hne : y ≠ x := by
        rintro rfl
        rw [hfree] at hholder
        cases hholder
      rw [← hslot y hne] at hholder hclient
      exact ⟨hholder, hclient⟩
  · have hne : e.2 ≠ x := fun heq => by
      have hplaced := h.placed e he
      rw [heq, htaken] at hplaced
      cases hplaced
    rw [hsame e.2 hne]
    exact h.placed e he
  · have hunused := h.fresh y hy
    have hne : y ≠ x := fun heq => by
      rw [heq, htaken] at hunused
      cases hunused
    rw [hsame y hne, hunused]
  · have hne : y ≠ x := by
      rintro rfl
      rw [show _ = _ from hcleared] at hv
      cases hv
    exact h.homes y v ((congrArg LspClientSlot.client (hslot y hne)).symm.trans hv)

/-- A new slot stands in the map. -/
theorem Inv.inserted (h : Inv g s) : ∃ g', Inv g' (({ s with
    clients := s.clients ++ [(key, s.nextSlot)]
    nextSlot := s.nextSlot + 1 }.setSlot s.nextSlot { lastUsed := s.clock }).goto t key
      (.acquire s.nextSlot)) := by
  have hunused : g.place s.nextSlot = .unused := h.fresh _ le_rfl
  let g' : Ghost := { g with place := Function.update g.place s.nextSlot .inMap }
  have hself : g'.place s.nextSlot = .inMap := Function.update_self _ _ _
  have hsame (y : SlotId) (hy : y ≠ s.nextSlot) : g'.place y = g.place y :=
    Function.update_of_ne hy _ _
  have hold (e : κ × SlotId) (he : e ∈ s.clients) : e.2 ≠ s.nextSlot := fun heq => by
    have hplaced := h.placed e he
    rw [heq, hunused] at hplaced
    cases hplaced
  refine ⟨g', h.advance rfl (fun u _ => .of_slot rfl ?_ (fun hused => absurd hunused hused)
    (fun hused => absurd hunused hused) (fun _ _ => rfl) le_rfl) (fun req hreq => ?_) ?_ ?_ ?_ ?_⟩
  · exact fun y hy => hsame y fun heq => hy (heq ▸ hunused)
  · cases hreq
    rw [PcOk, hself]
    nofun
  · show ((s.clients ++ [(key, s.nextSlot)]).map Prod.snd).Nodup
    rw [List.map_append, List.nodup_append]
    refine ⟨h.distinct, List.nodup_singleton _, ?_⟩
    rintro x hx y hy rfl
    obtain ⟨e, he, rfl⟩ := List.mem_map.mp hx
    exact hold e he (List.mem_singleton.mp hy)
  · intro e he
    rcases List.mem_append.mp he with he | he
    · rw [hsame e.2 (hold e he)]
      exact h.placed e he
    · rw [List.mem_singleton.mp he]
      exact hself
  · intro y hy
    have hlt : s.nextSlot < y := hy
    rw [hsame y hlt.ne']
    exact h.fresh y hlt.le
  · intro y v hv
    by_cases heq : y = s.nextSlot
    · subst heq
      simp [State.goto, State.setSlot] at hv
    · exact h.homes y v
        ((congrArg LspClientSlot.client (Function.update_of_ne heq _ _)).symm.trans hv)

/-- The request takes the free lock of an empty slot. -/
theorem Inv.locked (h : Inv g s) (hused : g.place x ≠ .unused)
    (hfree : (s.slots x).holder = none) (hclient : (s.slots x).client = none) :
    Inv g ((s.setSlot x { s.slots x with holder := some t }).goto t key (.spawning x)) := by
  refine h.advance rfl (fun u _ => .of_slot rfl (fun _ _ => rfl) (fun _ _ hv => hv)
    (fun _ hholder => absurd (hfree.symm.trans hholder) nofun) (fun _ _ => rfl) le_rfl)
    (fun req hreq => ?_) h.distinct h.placed h.fresh (fun y v hv => ?_)
  · cases hreq
    exact ⟨hused, by simp [State.goto, State.setSlot], by simpa [State.goto, State.setSlot]⟩
  · refine h.homes y v ?_
    rw [← hv]
    by_cases heq : y = x
    · subst heq
      simp [State.goto, State.setSlot]
    · simp [State.goto, State.setSlot, heq]

/-- A new server is in the slot that it was started in. -/
theorem Inv.spawned (h : Inv g s) (hused : g.place x ≠ .unused)
    (hholder : (s.slots x).holder = some t) (hclient : (s.slots x).client = none) :
    ∃ g', Inv g' (({ s with nextServer := s.nextServer + 1 }.setSlot x
      ⟨some s.nextServer, none, s.clock⟩).goto t key (.served x s.nextServer)) := by
  let g' : Ghost := { g with home := Function.update g.home s.nextServer x }
  have hself : g'.home s.nextServer = x := Function.update_self _ _ _
  have hsame (v : ServerId) (hv : v < s.nextServer) : g'.home v = g.home v :=
    Function.update_of_ne hv.ne _ _
  refine ⟨g', h.advance rfl (fun u hu => .of_slot rfl (fun _ _ => rfl)
    (fun _ v hv => absurd (hclient.symm.trans hv) nofun)
    (fun _ hholder' => absurd (Option.some.inj (hholder.symm.trans hholder')).symm hu) hsame
    (Nat.le_succ _)) (fun req hreq => ?_) h.distinct h.placed h.fresh (fun y v hv => ?_)⟩
  · cases hreq
    exact ⟨hself, Nat.lt_succ_self _, hused, fun _ => by simp [State.goto, State.setSlot]⟩
  · by_cases heq : y = x
    · subst heq
      obtain rfl : s.nextServer = v := by simpa [State.goto, State.setSlot] using hv
      exact ⟨hself, Nat.lt_succ_self _⟩
    · obtain ⟨hhome, hlt⟩ := h.homes y v
        ((congrArg LspClientSlot.client (Function.update_of_ne heq _ _)).symm.trans hv)
      exact ⟨(hsame v hlt).trans hhome, Nat.lt_succ_of_lt hlt⟩

theorem Inv.spawnFailed (h : Inv g s) (hholder : (s.slots x).holder = some t) :
    Inv g ((s.setSlot x { s.slots x with holder := none }).goto t key (.reset x none)) := by
  refine h.advance rfl (fun u hu => .of_slot rfl (fun _ _ => rfl) (fun _ _ hv => hv)
    (fun _ hholder' => absurd (Option.some.inj (hholder.symm.trans hholder')).symm hu)
    (fun _ _ => rfl) le_rfl) (fun req hreq => ?_) h.distinct h.placed h.fresh (fun y v hv => ?_)
  · cases hreq
    exact fun v hv => nomatch hv
  · refine h.homes y v ?_
    rw [← hv]
    by_cases heq : y = x
    · subst heq
      simp [State.goto, State.setSlot]
    · simp [State.goto, State.setSlot, heq]

end

section

variable {κ : Type} [DecidableEq κ] {g : Ghost} {s s' : State κ} {a : Action κ} {t : TaskId}
  {key : κ} {x : SlotId} {v : ServerId} {clients : List (κ × SlotId)}
  {maxActiveServers idleTimeout : Nat}

theorem get_mem (h : get clients key = some x) : (key, x) ∈ clients := by
  obtain ⟨⟨k, y⟩, hfind, rfl⟩ := Option.map_eq_some_iff.mp h
  have hkey : k = key := by simpa using List.find?_some hfind
  rw [← hkey]
  exact List.mem_of_find?_eq_some hfind

theorem get_eq_none : get clients key = none ↔ key ∉ keysOf clients := by
  rw [get, Option.map_eq_none_iff, List.find?_eq_none, keysOf, List.mem_map]
  constructor
  · rintro h ⟨e, he, rfl⟩
    exact h e he (decide_eq_true rfl)
  · intro h e he heq
    exact h ⟨e, he, of_decide_eq_true heq⟩

theorem erase_sublist (clients : List (κ × SlotId)) (key : κ) :
    (erase clients key).Sublist clients := List.filter_sublist

/-- A slot stands under one key. -/
theorem ne_of_mem_erase (hdistinct : (clients.map Prod.snd).Nodup) (hget : get clients key = some x)
    {e : κ × SlotId} (he : e ∈ erase clients key) : e.2 ≠ x := by
  intro heq
  obtain ⟨hmem, hne⟩ := List.mem_filter.mp he
  have hsame : e = (key, x) := List.inj_on_of_nodup_map hdistinct hmem (get_mem hget) heq
  exact of_decide_eq_true hne (congrArg Prod.fst hsame)

/-- What `remove_clients` takes out of the map: each slot once. -/
theorem removeKeys_spec (keys : List κ) (hdistinct : (clients.map Prod.snd).Nodup) :
    (removeKeys clients keys).1.Nodup ∧ (removeKeys clients keys).2.Sublist clients ∧
      (∀ x ∈ (removeKeys clients keys).1, ∃ key, (key, x) ∈ clients) ∧
      ∀ e ∈ (removeKeys clients keys).2, e.2 ∉ (removeKeys clients keys).1 := by
  induction keys generalizing clients with
  | nil => exact ⟨.nil, .refl _, List.forall_mem_nil _, fun _ _ => List.not_mem_nil⟩
  | cons key keys ih =>
      rw [removeKeys]
      cases hget : get clients key with
      | none => exact ih hdistinct
      | some x =>
          have hsub := erase_sublist clients key
          obtain ⟨hnodup, hrest, hfrom, hout⟩ := ih ((hsub.map Prod.snd).nodup hdistinct)
          have hne (e : κ × SlotId) (he : e ∈ erase clients key) : e.2 ≠ x :=
            ne_of_mem_erase hdistinct hget he
          refine ⟨List.nodup_cons.mpr ⟨fun hx => ?_, hnodup⟩, hrest.trans hsub, ?_, ?_⟩
          · obtain ⟨k, hk⟩ := hfrom x hx
            exact hne (k, x) hk rfl
          · intro y hy
            rcases List.mem_cons.mp hy with rfl | hy
            · exact ⟨key, get_mem hget⟩
            · obtain ⟨k, hk⟩ := hfrom y hy
              exact ⟨k, hsub.subset hk⟩
          · intro e he hmem
            rcases List.mem_cons.mp hmem with heq | hmem
            · exact hne e (hrest.subset he) heq
            · exact hout e he hmem



/-- **The invariant is kept by each step.** -/
theorem Inv.step (h : Inv g s) (hstep : step maxActiveServers idleTimeout s a = some s') :
    ∃ g', Inv g' s' := by
  have hpc {t : TaskId} {key : κ} {pc : Pc κ} (ht : s.tasks t = some ⟨key, pc⟩) : PcOk g s t pc :=
    h.tasks t _ ht
  cases a with
  | tick elapsed =>
      cases hstep
      exact ⟨g, h.distinct, h.placed, h.fresh, h.homes,
        fun t req ht => (h.tasks t req ht).compat (.of_same rfl rfl)⟩
  | arrive t key =>
      rw [ServerPool.step] at hstep
      split at hstep
      · cases hstep
        exact ⟨g, h.goto trivial⟩
      · cases hstep
  | look t =>
      rw [ServerPool.step] at hstep
      split at hstep
      · split at hstep
        · rename_i hget
          cases hstep
          refine ⟨g, h.goto ?_⟩
          rw [PcOk, h.placed _ (get_mem hget)]
          nofun
        · cases hstep
          exact ⟨g, h.goto trivial⟩
      · cases hstep
  | peek t =>
      rw [ServerPool.step] at hstep
      split at hstep
      · rename_i ht
        exact ⟨g, h.useOr (hpc ht)
          (fun _ _ => h.goto (show PcOk g s t (.scan s.clock) from trivial)) hstep⟩
      · cases hstep
  | scan t keys =>
      rw [ServerPool.step] at hstep
      split at hstep
      · split at hstep
        · cases hstep
          exact ⟨g, h.goto trivial⟩
        · cases hstep
      · cases hstep
  | remove t =>
      rw [ServerPool.step] at hstep
      split at hstep
      · rename_i key keys ht
        obtain ⟨hnodup, hsub, hfrom, hout⟩ := removeKeys_spec keys h.distinct
        cases hstep
        exact h.takeOut hsub hfrom hout fun g' s' _ htaken => ⟨hnodup, htaken⟩
      · cases hstep
  | clear t =>
      rw [ServerPool.step] at hstep
      split at hstep
      · cases hstep
        exact ⟨g, h.goto trivial⟩
      · rename_i key x slots ht
        obtain ⟨hnodup, htaken⟩ := hpc ht
        obtain ⟨hx, hnodup⟩ := List.nodup_cons.mp hnodup
        split at hstep
        · rename_i hfree
          cases hstep
          refine h.cleared (htaken x List.mem_cons_self) hfree fun g' s' hsame req hreq => ?_
          cases hreq
          refine ⟨hnodup, fun y hy => ?_⟩
          rw [hsame y fun heq => hx (heq ▸ hy)]
          exact htaken y (List.mem_cons_of_mem _ hy)
        · cases hstep
      · cases hstep
  | check t =>
      rw [ServerPool.step] at hstep
      split at hstep
      · split at hstep
        · cases hstep
          exact ⟨g, h.goto trivial⟩
        · cases hstep
          exact ⟨g, h.goto trivial⟩
      · cases hstep
  | pick t seen =>
      rw [ServerPool.step] at hstep
      split at hstep
      · split at hstep
        · split at hstep
          · cases hstep
            exact ⟨g, h.goto trivial⟩
          · cases hstep
            exact ⟨g, h.finish t⟩
        · cases hstep
      · cases hstep
  | insert t =>
      rw [ServerPool.step] at hstep
      split at hstep
      · split at hstep
        · rename_i hget
          cases hstep
          refine ⟨g, h.goto ?_⟩
          rw [PcOk, h.placed _ (get_mem hget)]
          nofun
        · cases hstep
          exact h.inserted
      · cases hstep
  | acquire t =>
      rw [ServerPool.step] at hstep
      split at hstep
      · rename_i ht
        exact ⟨g, h.useOr (hpc ht) (fun hfree hclient => h.locked (hpc ht) hfree hclient) hstep⟩
      · cases hstep
  | spawned t ok =>
      rw [ServerPool.step] at hstep
      split at hstep
      · rename_i ht
        obtain ⟨hused, hholder, hclient⟩ := hpc ht
        split at hstep
        · cases hstep
          exact h.spawned hused hholder hclient
        · cases hstep
          exact ⟨g, h.spawnFailed hholder⟩
      · cases hstep
  | answered t ok =>
      rw [ServerPool.step] at hstep
      split at hstep
      · rename_i ht
        split at hstep
        · cases hstep
          exact ⟨g, h.finish t⟩
        · cases hstep
          refine ⟨g, h.goto fun v hv => ?_⟩
          cases hv
          exact hpc ht
      · cases hstep
  | reset t =>
      rw [ServerPool.step] at hstep
      split at hstep
      · rename_i key x server ht
        split at hstep
        · rename_i y hget
          have hserved : ∀ v, server = some v → Served g s x v := hpc ht
          have hfrom : ∀ z ∈ [y], ∃ key, (key, z) ∈ s.clients := fun z hz =>
            ⟨key, List.mem_singleton.mp hz ▸ get_mem hget⟩
          have hout : ∀ e ∈ erase s.clients key, e.2 ∉ [y] := fun e he hmem =>
            ne_of_mem_erase h.distinct hget he (List.mem_singleton.mp hmem)
          cases hstep
          exact h.takeOut (erase_sublist _ _) hfrom hout fun g' s' hc htaken =>
            ⟨fun v hv => (hserved v hv).compat hc, htaken y List.mem_cons_self⟩
        · cases hstep
          exact ⟨g, h.finish t⟩
      · cases hstep
  | clearReset t =>
      rw [ServerPool.step] at hstep
      split at hstep
      · rename_i key x server y ht
        obtain ⟨-, htaken⟩ := hpc ht
        split at hstep
        · rename_i hfree
          cases hstep
          exact h.cleared htaken hfree fun _ _ _ _ hreq => nomatch hreq
        · cases hstep
      · cases hstep

omit [DecidableEq κ] in
theorem useOr_clients {otherwise : State κ} (hstep : useOr s t key x otherwise = some s')
    (hother : otherwise.clients = s.clients) : s'.clients = s.clients := by
  rw [useOr] at hstep
  split at hstep
  · split at hstep <;> cases hstep
    · rfl
    · exact hother
  · cases hstep

/-- Only an insertion adds to the map. -/
theorem Inv.clients_sublist (h : Inv g s)
    (hstep : ServerPool.step maxActiveServers idleTimeout s a = some s')
    (ha : ∀ t, a ≠ .insert t) : s'.clients.Sublist s.clients := by
  cases a with
  | insert t => exact absurd rfl (ha t)
  | tick elapsed =>
      cases hstep
      exact .refl _
  | peek t =>
      rw [ServerPool.step] at hstep
      split at hstep
      · exact (useOr_clients hstep rfl) ▸ .refl _
      · cases hstep
  | acquire t =>
      rw [ServerPool.step] at hstep
      split at hstep
      · exact (useOr_clients hstep rfl) ▸ .refl _
      · cases hstep
  | remove t =>
      rw [ServerPool.step] at hstep
      split at hstep
      · cases hstep
        exact (removeKeys_spec _ h.distinct).2.1
      · cases hstep
  | reset t =>
      rw [ServerPool.step] at hstep
      split at hstep
      · split at hstep <;> cases hstep
        · exact erase_sublist _ _
        · exact .refl _
      · cases hstep
  | _ =>
      -- the map is not touched
      rw [ServerPool.step] at hstep
      repeat' split at hstep
      all_goals first
        | cases hstep; exact .refl _
        | cases hstep

/-- An insertion keeps the bound when it is timely. -/
theorem insert_bound_iff (hbound : s.clients.length ≤ maxActiveServers)
    (hstep : step maxActiveServers idleTimeout s (.insert t) = some s') :
    s'.clients.length ≤ maxActiveServers ↔ Timely maxActiveServers s (.insert t) := by
  rw [step] at hstep
  split at hstep
  · rename_i key ht
    have htimely : Timely maxActiveServers s (.insert t) ↔
        key ∈ keysOf s.clients ∨ s.clients.length < maxActiveServers := by
      rw [Timely]
      constructor
      · exact fun h => h key ht
      · intro h k hk
        cases ht.symm.trans hk
        exact h
    rw [htimely]
    cases hget : get s.clients key with
    | some y =>
        rw [hget] at hstep
        cases hstep
        have hmem : key ∈ keysOf s.clients :=
          List.mem_map.mpr ⟨(key, y), get_mem hget, rfl⟩
        exact ⟨fun _ => .inl hmem, fun _ => hbound⟩
    | none =>
        rw [hget] at hstep
        cases hstep
        have hmem : key ∉ keysOf s.clients := get_eq_none.mp hget
        have hlength : (s.clients ++ [(key, s.nextSlot)]).length = s.clients.length + 1 :=
          List.length_append
        constructor
        · exact fun h => .inr (Nat.lt_of_succ_le (hlength.symm.trans_le h))
        · exact fun h => hlength.trans_le (Nat.succ_le_of_lt (h.resolve_left hmem))
  · cases hstep

omit [DecidableEq κ] in
/-- What a failing request takes is its own server, or empty, when it is the slot that it got its
server from, or empty. -/
theorem Inv.own_iff {server : Option ServerId} {y : SlotId} (h : Inv g s)
    (hserved : ∀ v, server = some v → Served g s x v) (hlive : Live (g.place y)) :
    (∀ v, (s.slots y).client = some v → server = some v) ↔
      (s.slots y).client = none ∨ (y = x ∧ server ≠ none) := by
  cases hclient : (s.slots y).client with
  | none => exact ⟨fun _ => .inl rfl, fun _ v hv => nomatch hv⟩
  | some w =>
      constructor
      · intro hown
        have hsame := hown w rfl
        -- a server is in the slot that it was started in
        have hy : y = x := (h.homes y w hclient).1.symm.trans (hserved w hsame).home
        exact .inr ⟨hy, fun hnone => nomatch hsame.symm.trans hnone⟩
      · rintro (hnone | ⟨rfl, hne⟩) v hv
        · cases hnone
        · obtain ⟨u, hu⟩ := Option.ne_none_iff_exists'.mp hne
          have hheld := (hserved u hu).holds hlive
          rw [hu, ← hheld, hclient, hv]

/-- **A step respects the pool just when it is timely.** -/
theorem Inv.respects_iff_timely (h : Inv g s) (hbound : s.clients.length ≤ maxActiveServers)
    (hstep : ServerPool.step maxActiveServers idleTimeout s a = some s') :
    Respects maxActiveServers s a s' ↔ Timely maxActiveServers s a := by
  have hkept (ha : ∀ t, a ≠ .insert t) : s'.clients.length ≤ maxActiveServers :=
    (h.clients_sublist hstep ha).length_le.trans hbound
  cases a with
  | insert t =>
      rw [← insert_bound_iff hbound hstep]
      exact ⟨fun h => h.bound, fun h => ⟨h, trivial⟩⟩
  | reset t =>
      have howned : Owned s (.reset t) ↔ Timely maxActiveServers s (.reset t) := by
        rw [Owned, Timely]
        refine forall₄_congr fun key x server ht => forall_congr' fun y => ?_
        have hown (hget : get s.clients key = some y) :=
          h.own_iff (y := y) (h.tasks t _ ht) (.inl (h.placed _ (get_mem hget)))
        exact ⟨fun howned hget => (hown hget).mp fun v hv => howned v hget hv,
          fun htimely v hget hv => (hown hget).mpr (htimely hget) v hv⟩
      exact ⟨fun h => howned.mp h.owned, fun h => ⟨hkept nofun, howned.mpr h⟩⟩
  | clearReset t =>
      have howned : Owned s (.clearReset t) ↔ Timely maxActiveServers s (.clearReset t) := by
        rw [Owned, Timely]
        refine forall₄_congr fun key x server y => forall_congr' fun ht => ?_
        obtain ⟨hserved, htaken⟩ := h.tasks t _ ht
        exact h.own_iff hserved (.inr ⟨t, htaken⟩)
      exact ⟨fun h => howned.mp h.owned, fun h => ⟨hkept nofun, howned.mpr h⟩⟩
  | _ => exact ⟨fun _ => trivial, fun _ => ⟨hkept nofun, trivial⟩⟩

omit [DecidableEq κ] in
theorem inv_init (home : ServerId → SlotId) : Inv ⟨fun _ => .unused, home⟩ (.init κ) where
  distinct := .nil
  placed := List.forall_mem_nil _
  fresh _ _ := rfl
  homes _ _ hv := nomatch hv
  tasks _ _ ht := nomatch ht

/-- **In a run of timely steps the pool stays within its bound**, and of the steps that can come
next those respect it, and take no other request's server, that are timely. -/
theorem respects_of_timely_run
    (hrun : Run (step maxActiveServers idleTimeout) (Timely maxActiveServers) (.init κ) s) :
    s.clients.length ≤ maxActiveServers ∧
      ∀ a s', step maxActiveServers idleTimeout s a = some s' →
        (Respects maxActiveServers s a s' ↔ Timely maxActiveServers s a) := by
  have hinv : (∃ g, Inv g s) ∧ s.clients.length ≤ maxActiveServers := by
    refine hrun.invariant (I := fun s => (∃ g, Inv g s) ∧ s.clients.length ≤ maxActiveServers)
      ?_ ⟨⟨_, inv_init fun _ => 0⟩, Nat.zero_le _⟩
    rintro s a s' ⟨⟨g, h⟩, hbound⟩ hok hstep
    exact ⟨h.step hstep, ((h.respects_iff_timely hbound hstep).mpr hok).bound⟩
  obtain ⟨⟨g, h⟩, hbound⟩ := hinv
  exact ⟨hbound, fun a s' hstep => h.respects_iff_timely hbound hstep⟩

end

/-- The steps of a request up to its insertion, with nothing to evict. -/
def beforeInsert (t : TaskId) (key : Bool) : List (Action Bool) :=
  [.arrive t key, .look t, .scan t [], .remove t, .clear t, .check t]

/-- A request that starts a server, and two that use it: the first fails, and a fourth one starts
another server under the key before the second one fails. -/
def lateFailure : List (Action Bool) :=
  beforeInsert 0 true ++ [.insert 0, .acquire 0, .spawned 0 true,
    .arrive 1 true, .look 1, .peek 1, .answered 0 false, .reset 0, .clearReset 0] ++
  beforeInsert 2 true ++ [.insert 2, .acquire 2, .spawned 2 true, .answered 1 false]

/-- Two requests find room for one server before either of them inserts its slot; and a request that
fails late takes the server that another one has started. -/
theorem pool_bounds_broken :
    (¬ ∀ actions s, runList (step 1 600) (.init Bool) actions = some s → s.clients.length ≤ 1) ∧
      ¬ ∀ actions s a s', runList (step 1 600) (.init Bool) actions = some s →
        step 1 600 s a = some s' → Owned s a := by
  constructor
  · intro h
    have hbound := h (beforeInsert 0 true ++ beforeInsert 1 false ++ [.insert 0, .insert 1]) _ rfl
    exact absurd hbound (by decide)
  · intro h
    have howned := h lateFailure _ (.reset 1) _ rfl rfl
    exact absurd (howned true 0 (some 0) rfl 1 1 rfl rfl) (by decide)

theorem timely_insert_of_nil {κ : Type} [DecidableEq κ] {s : State κ} {maxActiveServers : Nat}
    {t : TaskId} (h : s.clients = []) (hpos : 0 < maxActiveServers) :
    Timely maxActiveServers s (.insert t) := fun _ _ => .inr (by
  rw [h]
  exact hpos)

/-- A run in which a server is started, and the request that uses it fails: the next request may
come. -/
theorem respects_of_timely_run_failed :
    ∃ s, runList (step 1 600) (.init Bool) (beforeInsert 0 true ++ [.insert 0, .acquire 0,
        .spawned 0 true, .answered 0 false]) = some s ∧
      s.clients.length ≤ 1 ∧ ∀ a s', step 1 600 s a = some s' →
        (Respects 1 s a s' ↔ Timely 1 s a) := by
  have hbefore : Run (step 1 600) (Timely 1) (.init Bool) _ :=
    .of_allowed (beforeInsert 0 true) (fun a ha s => by fin_cases ha <;> trivial) rfl
  have hinserted := hbefore.snoc (a := .insert 0) (timely_insert_of_nil rfl Nat.zero_lt_one) rfl
  have hserved := hinserted.trans (.of_allowed [.acquire 0, .spawned 0 true, .answered 0 false]
    (fun a ha s => by fin_cases ha <;> trivial) rfl)
  exact ⟨_, rfl, respects_of_timely_run hserved⟩

end Sulion.CodeIntel.ServerPool
