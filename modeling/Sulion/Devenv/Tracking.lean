import Sulion.Devenv.Network

set_option autoImplicit false

/-! # What the link knows of the shells

In a run whose steps are in order (`Orderly`) every session is in one place: registered and not
yet sent, on its way, or hosted. The link then has an entry for every session that is on, or on
its way to, a devenv whose ident has been connected (`Known`).

The four parts of the invariant are proved for the kinds of update a step is made of: a connection
that carries less, a container that hosts less and a link that keeps less change nothing (the three
`Fades`), and the rest is a dial, a shell that starts, a spawn that is registered or sent, and a
hello.
-/

namespace Sulion.Devenv

/-- Where the session of an id is, from its registration on. -/
inductive Place
  | unsent (r : ReplyId)
  | flying (k : ConnectionId)
  | hosted (name : String)
  deriving DecidableEq

def Place.isHosted : Place → Bool
  | .hosted _ => true
  | _ => false

/-- The session a frame starts. -/
def NodeToDevenv.starts : NodeToDevenv → Option Uuid
  | .spawn _ id => some id
  | .kill _ => none

theorem mem_starts {frames : List NodeToDevenv} {id : Uuid} :
    id ∈ frames.filterMap NodeToDevenv.starts ↔ ∃ r, .spawn r id ∈ frames := by
  constructor
  · intro h
    obtain ⟨frame, hframe, hid⟩ := List.mem_filterMap.mp h
    cases frame with
    | spawn r id' =>
        cases hid
        exact ⟨r, hframe⟩
    | kill id' => cases hid
  · rintro ⟨r, h⟩
    exact List.mem_filterMap.mpr ⟨_, h, rfl⟩

/-- Connections, routes and servers fit together. -/
structure Wired (net : Net) : Prop where
  dialled : ∀ k, net.dialled ≤ k → (net.conn k).left = true ∧ (net.conn k).up = [] ∧
    (net.conn k).ident = none
  serving : ∀ (name : String) c k, net.containers[name]? = some c → c.serving = some k →
    (net.conn k).server = name ∧ k < net.dialled
  live : ∀ k, (net.conn k).left = false → ∃ c, net.containers[(net.conn k).server]? = some c ∧
    c.running = true ∧ c.serving = some k
  left : ∀ k, (net.conn k).left = true → (net.conn k).cut = true ∧ (net.conn k).down = []
  silent : ∀ k, (net.conn k).ident = none → (net.conn k).down = []
  ident : ∀ (name : String) c k key, net.containers[name]? = some c → c.serving = some k →
    (net.conn k).ident = some key → key = c.ident
  hello : ∀ (name : String) c k i ids, net.containers[name]? = some c → c.serving = some k →
    .hello i ids ∈ (net.conn k).up → i = c.imageId
  greeted : ∀ k i ids, .hello i ids ∈ (net.conn k).up → (net.conn k).ident = none
  once : ∀ k i ids, .hello i ids ∉ (net.conn k).up.tail
  route : ∀ i k, net.connections i = some k → (net.conn k).ident = some i
  stopped : ∀ (name : String) c, net.containers[name]? = some c → c.running = false →
    c.sessions = ∅ ∧ c.pumps = [] ∧ c.removing = []

/-- The session of `id` has been hosted, and its shell does not run any more. -/
def Over (place : Uuid → Place) (net : Net) (id : Uuid) : Prop :=
  (place id).isHosted = true ∧
  ∀ (name : String) c, net.containers[name]? = some c → c.sessions[id]? ≠ some .running

/-- A shell that is over stays so where no shell has started. -/
theorem Over.of_running {place : Uuid → Place} {net net' : Net} {id : Uuid} (h : Over place net id)
    (hrunning : ∀ (name : String) c', net'.containers[name]? = some c' →
      c'.sessions[id]? = some .running →
      ∃ c, net.containers[name]? = some c ∧ c.sessions[id]? = some .running) :
    Over place net' id := by
  refine ⟨h.1, fun name c' hc' hrun => ?_⟩
  obtain ⟨c, hc, hbefore⟩ := hrunning name c' hc' hrun
  exact h.2 name c hc hbefore

/-- Each session is in one place, and what is left of an exited shell ends no other one. -/
structure Placed (place : Uuid → Place) (net : Net) : Prop where
  hosted : ∀ (name : String) c (id : Uuid) sh, net.containers[name]? = some c →
    c.sessions[id]? = some sh → place id = .hosted name
  flying : ∀ k r id, .spawn r id ∈ (net.conn k).down → place id = .flying k
  flyingOnce : ∀ k, ((net.conn k).down.filterMap NodeToDevenv.starts).Nodup
  unsent : ∀ r t, net.tasks r = some t → t.stage = .sending → place t.id = .unsent r
  tasks : ∀ r t, net.tasks r = some t → r < net.replies ∧
    ∀ r' t', net.tasks r' = some t' → t'.id = t.id → r' = r
  named : ∀ k i ids id, .hello i ids ∈ (net.conn k).up → id ∈ ids →
    place id = .hosted (net.conn k).server
  reported : ∀ k id code, .exited id code ∈ (net.conn k).up → Over place net id
  ended : ∀ (name : String) c p, net.containers[name]? = some c → p ∈ c.pumps → p.exit ≠ none →
    Over place net p.id
  removed : ∀ (name : String) c id, net.containers[name]? = some c → id ∈ c.removing →
    Over place net id

/-- The link knows the sessions of the devenvs that have been connected. -/
structure Known (seen : String → Prop) (net : Net) : Prop where
  kept : ∀ r t, net.tasks r = some t → t.stage = .sending →
    net.sessionHost[t.id]? = some t.target
  listed : ∀ (name : String) c k i ids, net.containers[name]? = some c → c.serving = some k →
    .hello i ids ∈ (net.conn k).up → ∀ id : Uuid, c.sessions[id]? = some .running → id ∈ ids
  connected : ∀ i k, net.connections i = some k → seen i
  hosted : ∀ (name : String) c (id : Uuid), net.containers[name]? = some c →
    seen c.ident → c.sessions[id]? = some .running → net.sessionHost[id]? = some c.ident
  flying : ∀ k r id i, .spawn r id ∈ (net.conn k).down → (net.conn k).ident = some i →
    seen i → net.sessionHost[id]? = some i

/-- No session runs in these containers, and none comes to them any more. -/
structure Quiet (quiet : String → Prop) (net : Net) : Prop where
  hosted : ∀ (name : String) c (id : Uuid), quiet name → net.containers[name]? = some c →
    c.sessions[id]? ≠ some .running
  flying : ∀ k r id, quiet (net.conn k).server → .spawn r id ∉ (net.conn k).down
  unsent : ∀ k r t, quiet (net.conn k).server → (net.conn k).left = false →
    net.tasks r = some t → t.stage = .sending → (net.conn k).ident ≠ some t.target
  ident : ∀ (name : String) c, quiet name → net.containers[name]? = some c →
    c.ident ≠ net.currentIdent

theorem quiet_none (net : Net) : Quiet (fun _ => False) net where
  hosted _ _ _ hquiet := hquiet.elim
  flying _ _ _ hquiet := hquiet.elim
  unsent _ _ _ hquiet := hquiet.elim
  ident _ _ hquiet := hquiet.elim

/-- What a proof keeps beside the state. -/
structure Ghost where
  place : Uuid → Place
  seen : String → Prop
  quiet : String → Prop

structure Tracked (g : Ghost) (net : Net) : Prop where
  wired : Wired net
  placed : Placed g.place net
  known : Known g.seen net
  quiet : Quiet g.quiet net

/-- `l'` carries nothing that `l` does not, but for answers and exits of sessions that are over. -/
structure Connection.Fades (dead : Uuid → Prop) (l l' : Connection) : Prop where
  server : l'.server = l.server
  ident : l'.ident = l.ident
  left : l'.left = false → l.left = false
  ended : l'.left = true → l'.cut = true ∧ l'.down = []
  hello : ∀ i ids, .hello i ids ∈ l'.up → .hello i ids ∈ l.up
  once : (∀ i ids, .hello i ids ∉ l.up.tail) → ∀ i ids, .hello i ids ∉ l'.up.tail
  exited : ∀ id code, .exited id code ∈ l'.up → .exited id code ∈ l.up ∨ dead id
  written : l.cut = true → l.up = [] → l'.up = []
  spawn : ∀ r id, .spawn r id ∈ l'.down → .spawn r id ∈ l.down
  spawnOnce : (l.down.filterMap NodeToDevenv.starts).Nodup →
    (l'.down.filterMap NodeToDevenv.starts).Nodup
  silent : l.ident = none → l.down = [] → l'.down = []

/-- `c'` hosts nothing that `c` does not. -/
structure Container.Fades (c c' : Container) : Prop where
  imageId : c'.imageId = c.imageId
  serving : c'.serving = c.serving
  running : ∀ id : Uuid, c'.sessions[id]? = some .running → c.sessions[id]? = some .running
  sessions : ∀ (id : Uuid) sh, c'.sessions[id]? = some sh → ∃ sh', c.sessions[id]? = some sh'
  pumps : ∀ p ∈ c'.pumps, p.exit ≠ none → (∃ q ∈ c.pumps, q.id = p.id ∧ q.exit ≠ none) ∨
    ∃ code, c'.sessions[p.id]? = some (.exited code)
  removing : ∀ id ∈ c'.removing, id ∈ c.removing ∨ ∃ q ∈ c.pumps, q.id = id ∧ q.exit ≠ none
  stopped : c'.running = false → c'.sessions = ∅ ∧ c'.pumps = [] ∧ c'.removing = []

/-- The link forgets spawns, routes and idle sessions, and nothing else changes. -/
structure Net.LinkFades (net net' : Net) : Prop where
  containers : net'.containers = net.containers
  conn : net'.conn = net.conn
  dialled : net'.dialled = net.dialled
  currentIdent : net'.currentIdent = net.currentIdent
  replies : net'.replies = net.replies
  tasks : ∀ r t', net'.tasks r = some t' → ∃ t, net.tasks r = some t ∧ t'.id = t.id ∧
    t'.target = t.target ∧ (t'.stage = .sending → t.stage = .sending)
  connections : ∀ i k, net'.connections i = some k → net.connections i = some k
  hosts : ∀ id : Uuid, net'.sessionHost[id]? = net.sessionHost[id]? ∨
    ((∀ (name : String) c, net.containers[name]? = some c → c.sessions[id]? ≠ some .running) ∧
      (∀ k r, .spawn r id ∉ (net.conn k).down) ∧
      ∀ r t, net'.tasks r = some t → t.stage = .sending → t.id ≠ id)

theorem Net.LinkFades.setTask {net : Net} {r : ReplyId} {o : Option SpawnTask}
    (h : ∀ t', o = some t' → ∃ t, net.tasks r = some t ∧ t'.id = t.id ∧ t'.target = t.target ∧
      (t'.stage = .sending → t.stage = .sending)) : net.LinkFades (net.setTask r o) where
  containers := rfl
  conn := rfl
  dialled := rfl
  currentIdent := rfl
  replies := rfl
  tasks := by
    intro r' t' ht'
    simp only [Net.setTask, Function.update_apply] at ht'
    grind
  connections := fun _ _ hk => hk
  hosts := fun _ => .inl rfl

theorem Net.LinkFades.failPendingFor (net : Net) (key : String) :
    net.LinkFades (net.failPendingFor key) where
  containers := rfl
  conn := rfl
  dialled := rfl
  currentIdent := rfl
  replies := rfl
  tasks := by
    intro r t' ht'
    obtain ⟨t, ht, rfl⟩ := Option.map_eq_some_iff.mp ht'
    exact ⟨t, ht, by split <;> simp⟩
  connections := fun _ _ hk => hk
  hosts := fun _ => .inl rfl

theorem Net.LinkFades.unroute (net : Net) (key : String) (k : ConnectionId) :
    net.LinkFades { net with
      connections := if net.connections key = some k then
        Function.update net.connections key none else net.connections } where
  containers := rfl
  conn := rfl
  dialled := rfl
  currentIdent := rfl
  replies := rfl
  tasks := fun r t ht => ⟨t, ht, rfl, rfl, fun hst => hst⟩
  connections := by
    intro i j hj
    dsimp only at hj
    split at hj
    · rw [Function.update_apply] at hj
      split at hj
      · cases hj
      · exact hj
    · exact hj
  hosts := fun _ => .inl rfl

/-- One connection of two, after an update. -/
theorem Net.setConn_cases (net : Net) (k : ConnectionId) (l : Connection) (j : ConnectionId) :
    (j = k ∧ (net.setConn k l).conn j = l) ∨ (j ≠ k ∧ (net.setConn k l).conn j = net.conn j) := by
  rw [Net.conn_setConn]
  by_cases hj : j = k
  · exact .inl ⟨hj, if_pos hj⟩
  · exact .inr ⟨hj, if_neg hj⟩

theorem Net.of_setContainer {net : Net} {name other : String} {c now : Container}
    (h : (net.setContainer name c).containers[other]? = some now) :
    (other = name ∧ now = c) ∨ (other ≠ name ∧ net.containers[other]? = some now) := by
  by_cases hname : name = other
  · subst hname
    exact .inl ⟨rfl, (Option.some.inj ((Table.lookup_insert_self _ _ _).symm.trans h)).symm⟩
  · exact .inr ⟨Ne.symm hname, (Table.lookup_insert_ne _ _ hname).symm.trans h⟩

section Updates

variable {place : Uuid → Place} {seen quiet : String → Prop} {dead : Uuid → Prop}
  {net net' : Net} {name : String} {k : ConnectionId} {l : Connection} {c c' : Container}

attribute [local grind =] Table.lookup_insert Container.ident

theorem Wired.setConn (h : Wired net) (hl : (net.conn k).Fades dead l) :
    Wired (net.setConn k l) := by
  cases h
  cases hl
  constructor
  all_goals simp only [Net.setConn, Function.update_apply]
  all_goals grind

theorem Placed.setConn (h : Placed place net) (hl : (net.conn k).Fades (Over place net) l) :
    Placed place (net.setConn k l) := by
  constructor
  case hosted => exact h.hosted
  case unsent => exact h.unsent
  case tasks => exact h.tasks
  case ended => exact h.ended
  case removed => exact h.removed
  case flying =>
    intro j r id hmem
    rcases net.setConn_cases k l j with ⟨rfl, hconn⟩ | ⟨-, hconn⟩
    · exact h.flying j r id (hl.spawn r id (hconn ▸ hmem))
    · exact h.flying j r id (hconn ▸ hmem)
  case flyingOnce =>
    intro j
    rcases net.setConn_cases k l j with ⟨rfl, hconn⟩ | ⟨-, hconn⟩
    · rw [hconn]
      exact hl.spawnOnce (h.flyingOnce j)
    · rw [hconn]
      exact h.flyingOnce j
  case named =>
    intro j i ids id hmem hid
    rcases net.setConn_cases k l j with ⟨rfl, hconn⟩ | ⟨-, hconn⟩
    · rw [hconn] at hmem ⊢
      rw [hl.server]
      exact h.named j i ids id (hl.hello i ids hmem) hid
    · rw [hconn] at hmem ⊢
      exact h.named j i ids id hmem hid
  case reported =>
    intro j id code hmem
    rcases net.setConn_cases k l j with ⟨rfl, hconn⟩ | ⟨-, hconn⟩
    · rcases hl.exited id code (hconn ▸ hmem) with hold | hdead
      · exact h.reported j id code hold
      · exact hdead
    · exact h.reported j id code (hconn ▸ hmem)

theorem Known.setConn (h : Known seen net) (hl : (net.conn k).Fades dead l) :
    Known seen (net.setConn k l) := by
  cases h
  cases hl
  constructor
  all_goals simp only [Net.setConn, Function.update_apply]
  all_goals grind

theorem Quiet.setConn (h : Quiet quiet net) (hl : (net.conn k).Fades dead l) :
    Quiet quiet (net.setConn k l) := by
  cases h
  cases hl
  constructor
  all_goals simp only [Net.setConn, Function.update_apply]
  all_goals grind

theorem Wired.setContainer (h : Wired net) (hc : net.containers[name]? = some c)
    (hf : c.Fades c') (hrun : ∀ k, c.serving = some k → (net.conn k).left = false →
      c'.running = true) : Wired (net.setContainer name c') := by
  cases h
  cases hf
  constructor
  all_goals simp only [Net.setContainer, Table.lookup_insert]
  all_goals grind

theorem Placed.setContainer (h : Placed place net) (hc : net.containers[name]? = some c)
    (hf : c.Fades c') : Placed place (net.setContainer name c') := by
  have hover : ∀ id, Over place net id → Over place (net.setContainer name c') id := by
    refine fun id hid => hid.of_running fun other now hnow hrun => ?_
    rcases Net.of_setContainer hnow with ⟨rfl, rfl⟩ | ⟨-, hold⟩
    · exact ⟨c, hc, hf.running id hrun⟩
    · exact ⟨now, hold, hrun⟩
  have hexited : ∀ id code, c'.sessions[id]? = some (.exited code) →
      Over place (net.setContainer name c') id := by
    intro id code hcode
    obtain ⟨sh, hsh⟩ := hf.sessions id _ hcode
    have hplace := h.hosted name c id sh hc hsh
    refine ⟨by rw [hplace]; rfl, fun other now hnow hrun => ?_⟩
    rcases Net.of_setContainer hnow with ⟨-, rfl⟩ | ⟨hne, hold⟩
    · rw [hcode] at hrun
      cases hrun
    · exact hne (Place.hosted.inj ((h.hosted other now id _ hold hrun).symm.trans hplace))
  constructor
  case flying => exact h.flying
  case flyingOnce => exact h.flyingOnce
  case unsent => exact h.unsent
  case tasks => exact h.tasks
  case named => exact h.named
  case reported => exact fun j id code hmem => hover id (h.reported j id code hmem)
  case hosted =>
    intro other now id sh hnow hsh
    rcases Net.of_setContainer hnow with ⟨rfl, rfl⟩ | ⟨-, hold⟩
    · obtain ⟨sh', hsh'⟩ := hf.sessions id sh hsh
      exact h.hosted other c id sh' hc hsh'
    · exact h.hosted other now id sh hold hsh
  case ended =>
    intro other now p hnow hp hended
    rcases Net.of_setContainer hnow with ⟨-, rfl⟩ | ⟨-, hold⟩
    · rcases hf.pumps p hp hended with ⟨q, hq, hid, hqended⟩ | ⟨code, hcode⟩
      · exact hover p.id (hid ▸ h.ended name c q hc hq hqended)
      · exact hexited p.id code hcode
    · exact hover p.id (h.ended other now p hold hp hended)
  case removed =>
    intro other now id hnow hid
    rcases Net.of_setContainer hnow with ⟨-, rfl⟩ | ⟨-, hold⟩
    · rcases hf.removing id hid with hold | ⟨q, hq, hqid, hqended⟩
      · exact hover id (h.removed name c id hc hold)
      · exact hover id (hqid ▸ h.ended name c q hc hq hqended)
    · exact hover id (h.removed other now id hold hid)

theorem Known.setContainer (h : Known seen net) (hc : net.containers[name]? = some c)
    (hf : c.Fades c') : Known seen (net.setContainer name c') := by
  cases h
  cases hf
  constructor
  all_goals simp only [Net.setContainer, Table.lookup_insert]
  all_goals grind

theorem Quiet.setContainer (h : Quiet quiet net) (hc : net.containers[name]? = some c)
    (hf : c.Fades c') : Quiet quiet (net.setContainer name c') := by
  cases h
  cases hf
  constructor
  all_goals simp only [Net.setContainer, Table.lookup_insert]
  all_goals grind

theorem Wired.link (h : Wired net) (hf : net.LinkFades net') : Wired net' := by
  obtain ⟨hcs, hconn, hd, -, -, -, hr, -⟩ := hf
  cases h
  constructor
  all_goals simp only [hcs, hconn, hd]
  all_goals grind

theorem Placed.link (h : Placed place net) (hf : net.LinkFades net') : Placed place net' := by
  obtain ⟨hcs, hconn, -, -, hreplies, ht, -, -⟩ := hf
  cases h
  constructor
  all_goals simp only [hcs, hconn, hreplies, Over] at *
  all_goals grind

theorem Known.link (h : Known seen net) (hf : net.LinkFades net') : Known seen net' := by
  obtain ⟨hcs, hconn, -, -, -, ht, hr, hhosts⟩ := hf
  cases h
  constructor
  case kept => grind
  case connected => grind
  all_goals simp only [hcs, hconn]
  all_goals grind

theorem Quiet.link (h : Quiet quiet net) (hf : net.LinkFades net') : Quiet quiet net' := by
  obtain ⟨hcs, hconn, -, hcur, -, ht, -, -⟩ := hf
  cases h
  constructor
  all_goals simp only [hcs, hconn, hcur]
  all_goals grind

end Updates

/-! ## Growth -/

section Growth

variable {place : Uuid → Place} {seen quiet : String → Prop}
  {net net' : Net} {name : String} {k : ConnectionId} {l : Connection} {c c' : Container}
  {r reply : ReplyId} {id : Uuid} {rest : List NodeToDevenv} {t : SpawnTask}

attribute [local grind =] Table.lookup_insert Container.ident

def Net.dialledBy (net : Net) (name : String) (c : Container) : Net :=
  ({ net with dialled := net.dialled + 1 }.setConn net.dialled
    { server := name, up := [.hello c.imageId c.sessions.keys], down := [], cut := false,
      left := false, ident := none, closed := false }).setContainer name
    { c with
      pumps := c.pumps ++
        c.sessions.toList.map fun (entry : Uuid × Shell) =>
          Pump.mk entry.1 net.dialled entry.2.exit
      serving := some net.dialled }

theorem Wired.dial (h : Wired net) (hc : net.containers[name]? = some c) (hrun : c.running = true)
    (hfree : ∀ k, c.serving = some k → (net.conn k).left = true) :
    Wired (net.dialledBy name c) := by
  cases h
  constructor
  all_goals simp only [Net.dialledBy, Net.setConn, Net.setContainer, Table.lookup_insert,
    Function.update_apply]
  all_goals grind

theorem dialPumps_exited (c : Container) (k : ConnectionId) :
    ∀ p ∈ c.sessions.toList.map fun (entry : Uuid × Shell) => Pump.mk entry.1 k entry.2.exit,
      p.exit ≠ none → ∃ code, c.sessions[p.id]? = some (.exited code) := by
  intro p hp he
  obtain ⟨⟨id, shell⟩, hmem, rfl⟩ := List.mem_map.mp hp
  rw [Std.ExtTreeMap.mem_toList_iff_getElem?_eq_some] at hmem
  cases shell with
  | running => exact absurd rfl he
  | exited code => exact ⟨code, hmem⟩

theorem Net.conn_dialledBy (net : Net) (name : String) (c : Container) (j : ConnectionId) :
    (j = net.dialled ∧ (net.dialledBy name c).conn j =
      { server := name, up := [.hello c.imageId c.sessions.keys], down := [], cut := false,
        left := false, ident := none, closed := false }) ∨
      (j ≠ net.dialled ∧ (net.dialledBy name c).conn j = net.conn j) :=
  Net.setConn_cases _ net.dialled _ j

theorem Placed.dial (h : Placed place net) (hc : net.containers[name]? = some c) :
    Placed place (net.dialledBy name c) := by
  have hover : ∀ id, Over place net id → Over place (net.dialledBy name c) id := by
    refine fun id hid => hid.of_running fun other now hnow hrun => ?_
    rcases Net.of_setContainer hnow with ⟨rfl, rfl⟩ | ⟨-, hold⟩
    · exact ⟨c, hc, hrun⟩
    · exact ⟨now, hold, hrun⟩
  constructor
  case unsent => exact h.unsent
  case tasks => exact h.tasks
  case hosted =>
    intro other now id sh hnow hsh
    rcases Net.of_setContainer hnow with ⟨rfl, rfl⟩ | ⟨-, hold⟩
    · exact h.hosted other c id sh hc hsh
    · exact h.hosted other now id sh hold hsh
  case flying =>
    intro j r id hmem
    rcases net.conn_dialledBy name c j with ⟨-, hconn⟩ | ⟨-, hconn⟩
    · rw [hconn] at hmem
      exact absurd hmem List.not_mem_nil
    · exact h.flying j r id (hconn ▸ hmem)
  case flyingOnce =>
    intro j
    rcases net.conn_dialledBy name c j with ⟨-, hconn⟩ | ⟨-, hconn⟩
    · rw [hconn]
      exact List.nodup_nil
    · rw [hconn]
      exact h.flyingOnce j
  case named =>
    intro j i ids id hmem hid
    rcases net.conn_dialledBy name c j with ⟨-, hconn⟩ | ⟨-, hconn⟩
    · rw [hconn] at hmem ⊢
      obtain ⟨-, rfl⟩ := DevenvToNode.hello.inj (List.mem_singleton.mp hmem)
      have hsession : id ∈ c.sessions := by simpa using hid
      obtain ⟨sh, hsh⟩ := Option.isSome_iff_exists.mp (Std.ExtTreeMap.isSome_getElem?_iff_mem.mpr
        hsession)
      exact h.hosted name c id sh hc hsh
    · rw [hconn] at hmem ⊢
      exact h.named j i ids id hmem hid
  case reported =>
    intro j id code hmem
    rcases net.conn_dialledBy name c j with ⟨-, hconn⟩ | ⟨-, hconn⟩
    · rw [hconn] at hmem
      cases List.mem_singleton.mp hmem
    · exact hover id (h.reported j id code (hconn ▸ hmem))
  case ended =>
    intro other now p hnow hp hended
    rcases Net.of_setContainer hnow with ⟨rfl, rfl⟩ | ⟨-, hold⟩
    · rcases List.mem_append.mp hp with hold | hnew
      · exact hover p.id (h.ended other c p hc hold hended)
      · -- a new pump of a session that has exited
        obtain ⟨code, hcode⟩ := dialPumps_exited c net.dialled p hnew hended
        have hplace := h.hosted other c p.id _ hc hcode
        refine ⟨by rw [hplace]; rfl, fun other' now' hnow' hrun => ?_⟩
        rcases Net.of_setContainer hnow' with ⟨-, rfl⟩ | ⟨hne, hold⟩
        · exact absurd (hcode.symm.trans hrun) (by simp)
        · exact hne (Place.hosted.inj ((h.hosted other' now' p.id _ hold hrun).symm.trans hplace))
    · exact hover p.id (h.ended other now p hold hp hended)
  case removed =>
    intro other now id hnow hid
    rcases Net.of_setContainer hnow with ⟨rfl, rfl⟩ | ⟨-, hold⟩
    · exact hover id (h.removed other c id hc hid)
    · exact hover id (h.removed other now id hold hid)

theorem Known.dial (h : Known seen net) (hw : Wired net) (hc : net.containers[name]? = some c) :
    Known seen (net.dialledBy name c) := by
  cases h
  cases hw
  constructor
  all_goals simp only [Net.dialledBy, Net.setConn, Net.setContainer, Table.lookup_insert,
    Function.update_apply]
  all_goals grind

theorem Quiet.dial (h : Quiet quiet net) (hw : Wired net) (hc : net.containers[name]? = some c) :
    Quiet quiet (net.dialledBy name c) := by
  cases h
  cases hw
  constructor
  all_goals simp only [Net.dialledBy, Net.setConn, Net.setContainer, Table.lookup_insert,
    Function.update_apply]
  all_goals grind

/-! ### A shell starts -/

def Net.hostedBy (net : Net) (name : String) (c : Container) (k : ConnectionId) (id : Uuid) : Net :=
  net.setContainer name
    { c with sessions := c.sessions.insert id .running, pumps := c.pumps ++ [⟨id, k, none⟩] }

theorem Wired.host (h : Wired net) (hc : net.containers[name]? = some c) (hrun : c.running = true) :
    Wired (net.hostedBy name c k id) := by
  cases h
  constructor
  all_goals simp only [Net.hostedBy, Net.setContainer, Table.lookup_insert]
  all_goals grind

theorem Placed.host (h : Placed place net) (hc : net.containers[name]? = some c)
    (hfree : ∀ k r, .spawn r id ∉ (net.conn k).down) (hid : place id = .flying k) :
    Placed (Function.update place id (.hosted name)) (net.hostedBy name c k id) := by
  have hold : ∀ {id' : Uuid} {where' : Place}, place id' = where' → where' ≠ .flying k →
      Function.update place id (.hosted name) id' = where' := by
    intro id' where' hplace hne
    rw [Function.update_of_ne _ _ _]
    · exact hplace
    · rintro rfl
      exact hne (hplace.symm.trans hid)
  have hover : ∀ id', Over place net id' →
      Over (Function.update place id (.hosted name)) (net.hostedBy name c k id) id' := by
    intro id' hdead
    have hne : id' ≠ id := by
      rintro rfl
      rw [Over, hid] at hdead
      exact absurd hdead.1 Bool.false_ne_true
    refine Over.of_running ⟨?_, hdead.2⟩ fun other now hnow hrun => ?_
    · rw [Function.update_of_ne hne]
      exact hdead.1
    · rcases Net.of_setContainer hnow with ⟨rfl, rfl⟩ | ⟨-, hnow⟩
      · exact ⟨c, hc, (Table.lookup_insert_ne _ _ hne.symm).symm.trans hrun⟩
      · exact ⟨now, hnow, hrun⟩
  constructor
  case flyingOnce => exact h.flyingOnce
  case tasks => exact h.tasks
  case unsent => exact fun r t ht hst => hold (h.unsent r t ht hst) nofun
  case named => exact fun j i ids id' hmem hid' => hold (h.named j i ids id' hmem hid') nofun
  case reported => exact fun j id' code hmem => hover id' (h.reported j id' code hmem)
  case hosted =>
    intro other now id' sh hnow hsh
    by_cases hown : id' = id
    · subst hown
      rcases Net.of_setContainer hnow with ⟨rfl, -⟩ | ⟨-, hnow⟩
      · exact Function.update_self ..
      · cases hid.symm.trans (h.hosted other now id' sh hnow hsh)
    · refine hold ?_ nofun
      rcases Net.of_setContainer hnow with ⟨rfl, rfl⟩ | ⟨-, hnow⟩
      · exact h.hosted other c id' sh hc
          ((Table.lookup_insert_ne _ _ (Ne.symm hown)).symm.trans hsh)
      · exact h.hosted other now id' sh hnow hsh
  case flying =>
    intro j r id' hmem
    have hne : id' ≠ id := by
      rintro rfl
      exact hfree j r hmem
    rw [Function.update_of_ne hne]
    exact h.flying j r id' hmem
  case ended =>
    intro other now p hnow hp hended
    rcases Net.of_setContainer hnow with ⟨rfl, rfl⟩ | ⟨-, hnow⟩
    · rcases List.mem_append.mp hp with hp | hnew
      · exact hover p.id (h.ended other c p hc hp hended)
      · obtain rfl := List.mem_singleton.mp hnew
        exact absurd rfl hended
    · exact hover p.id (h.ended other now p hnow hp hended)
  case removed =>
    intro other now id' hnow hid'
    rcases Net.of_setContainer hnow with ⟨rfl, rfl⟩ | ⟨-, hnow⟩
    · exact hover id' (h.removed other c id' hc hid')
    · exact hover id' (h.removed other now id' hnow hid')

theorem Known.host (h : Known seen net) (hc : net.containers[name]? = some c)
    (hk : c.serving = some k) (hheard : ∀ i ids, .hello i ids ∉ (net.conn k).up)
    (hhost : seen c.ident → net.sessionHost[id]? = some c.ident) :
    Known seen (net.hostedBy name c k id) := by
  cases h
  constructor
  all_goals simp only [Net.hostedBy, Net.setContainer, Table.lookup_insert]
  all_goals grind

theorem Quiet.host (h : Quiet quiet net) (hc : net.containers[name]? = some c)
    (hname : ¬ quiet name) : Quiet quiet (net.hostedBy name c k id) := by
  cases h
  constructor
  all_goals simp only [Net.hostedBy, Net.setContainer, Table.lookup_insert]
  all_goals grind

/-! ### A spawn is sent -/

def Net.sentOn (net : Net) (r : ReplyId) (t : SpawnTask) (k : ConnectionId) : Net :=
  (net.setTask r (some { t with stage := .waiting })).setConn k
    ((net.conn k).writeDown (.spawn r t.id))

theorem Wired.send (h : Wired net) (hk : net.connections t.target = some k) :
    Wired (net.sentOn r t k) := by
  cases h
  constructor
  all_goals simp only [Net.sentOn, Net.setTask, Net.setConn, Function.update_apply,
    Connection.writeDown]
  all_goals grind

theorem Placed.send (h : Placed place net) (ht : net.tasks r = some t) (hst : t.stage = .sending) :
    Placed (Function.update place t.id (.flying k)) (net.sentOn r t k) := by
  have hnew : t.id ∉ (net.conn k).down.filterMap NodeToDevenv.starts := by
    intro hmem
    obtain ⟨r', hr'⟩ := mem_starts.mp hmem
    have hflying := h.flying k r' t.id hr'
    rw [h.unsent r t ht hst] at hflying
    cases hflying
  cases h
  constructor
  case flyingOnce =>
    intro j
    simp only [Net.sentOn, Net.setTask, Net.setConn, Function.update_apply, Connection.writeDown]
    split
    · split
      · grind
      · simp only [List.filterMap_append, List.filterMap_cons, NodeToDevenv.starts,
          List.filterMap_nil, List.nodup_append]
        grind
    · grind
  all_goals simp only [Net.sentOn, Net.setTask, Net.setConn, Function.update_apply,
    Connection.writeDown, Over] at *
  all_goals grind [Place.isHosted, NodeToDevenv.starts]

theorem Known.send (h : Known seen net) (hw : Wired net) (ht : net.tasks r = some t)
    (hst : t.stage = .sending) (hk : net.connections t.target = some k) :
    Known seen (net.sentOn r t k) := by
  cases h
  have := hw.route _ _ hk
  constructor
  all_goals simp only [Net.sentOn, Net.setTask, Net.setConn, Function.update_apply,
    Connection.writeDown]
  all_goals grind

theorem Quiet.send (h : Quiet quiet net) (hw : Wired net) (ht : net.tasks r = some t)
    (hst : t.stage = .sending) (hk : net.connections t.target = some k) :
    Quiet quiet (net.sentOn r t k) := by
  cases h
  have := hw.route _ _ hk
  have := hw.left k
  constructor
  all_goals simp only [Net.sentOn, Net.setTask, Net.setConn, Function.update_apply,
    Connection.writeDown]
  all_goals grind

/-! ### A spawn is registered -/

/-- Nothing of the id is left anywhere. -/
structure Free (net : Net) (id : Uuid) : Prop where
  session : ∀ (name : String) c, net.containers[name]? = some c → c.sessions[id]? = none
  pump : ∀ (name : String) c, net.containers[name]? = some c → ∀ p ∈ c.pumps, p.id ≠ id
  removing : ∀ (name : String) c, net.containers[name]? = some c → id ∉ c.removing
  spawn : ∀ k r, .spawn r id ∉ (net.conn k).down
  exited : ∀ k code, .exited id code ∉ (net.conn k).up
  hello : ∀ k i ids, .hello i ids ∈ (net.conn k).up → id ∉ ids
  task : ∀ r t, net.tasks r = some t → t.id ≠ id

def Net.registered (net : Net) (id : Uuid) : Net :=
  { net with
    sessionHost := net.sessionHost.insert id net.currentIdent
    tasks := Function.update net.tasks net.replies (some ⟨id, net.currentIdent, .sending, none⟩)
    replies := net.replies + 1 }

theorem Wired.register (h : Wired net) : Wired (net.registered id) := by
  cases h
  constructor
  all_goals simp only [Net.registered]
  all_goals assumption

theorem Placed.register (h : Placed place net) (hid : Free net id) :
    Placed (Function.update place id (.unsent net.replies)) (net.registered id) := by
  cases h
  cases hid
  constructor
  all_goals simp only [Net.registered, Function.update_apply, Over] at *
  all_goals grind

theorem Known.register (h : Known seen net) (hid : Free net id) :
    Known seen (net.registered id) := by
  cases h
  cases hid
  constructor
  all_goals simp only [Net.registered, Function.update_apply]
  all_goals grind

theorem Quiet.register (h : Quiet quiet net) (hw : Wired net) :
    Quiet quiet (net.registered id) := by
  have hlive := hw.live
  have hident := hw.ident
  cases h
  constructor
  all_goals simp only [Net.registered, Function.update_apply]
  all_goals grind

/-! ### A hello is handled -/

/-- A hello under `key` takes nothing from any other connection. -/
structure Hailed (net : Net) (k : ConnectionId) (key : String) : Prop where
  serving : ∀ c, net.containers[(net.conn k).server]? = some c → c.serving = some k
  others : ∀ (name : String) c, net.containers[name]? = some c → name ≠ (net.conn k).server →
    c.running = true → c.ident ≠ key
  unsent : ∀ r t, net.tasks r = some t → t.stage = .sending → t.target ≠ key

def Net.greeted (net : Net) (k : ConnectionId) (rest : List DevenvToNode) (key : String)
    (ids : List Uuid) : Net :=
  { net.setConn k { net.conn k with up := rest, ident := some key } with
    connections := Function.update net.connections key (some k)
    sessionHost := Net.takeInventory net.sessionHost key ids
    events := net.events ++ [.connected key ids] }

variable {i : Option String} {ids : List Uuid} {rest : List DevenvToNode}

theorem Wired.greet (h : Wired net) (hup : (net.conn k).up = .hello i ids :: rest) :
    Wired (net.greeted k rest (i.getD defaultIdent) ids) := by
  have honce : ∀ i ids, .hello i ids ∉ rest := by
    intro i ids
    simpa [hup] using h.once k i ids
  cases h
  constructor
  all_goals simp only [Net.greeted, Net.setConn, Function.update_apply]
  case once => grind [List.mem_of_mem_tail]
  all_goals grind

theorem Placed.greet {key : String} (h : Placed place net)
    (hup : (net.conn k).up = .hello i ids :: rest) : Placed place (net.greeted k rest key ids) := by
  cases h
  constructor
  all_goals simp only [Net.greeted, Net.setConn, Function.update_apply, Over] at *
  all_goals grind

theorem Known.greet (h : Known seen net) (hw : Wired net) (hp : Placed place net)
    (hturn : Hailed net k (i.getD defaultIdent)) (hup : (net.conn k).up = .hello i ids :: rest) :
    Known (fun j => seen j ∨ j = i.getD defaultIdent)
      (net.greeted k rest (i.getD defaultIdent) ids) := by
  have hhello : .hello i ids ∈ (net.conn k).up := by simp [hup]
  have hlisted : ∀ id ∈ ids, place id = .hosted (net.conn k).server := fun id hid =>
    hp.named k i ids id hhello hid
  constructor
  all_goals simp only [Net.greeted, Net.setConn, Function.update_apply, Net.lookup_takeInventory]
  case kept =>
    intro r t ht hst
    have hplace := hp.unsent r t ht hst
    have htarget := hturn.unsent r t ht hst
    grind [h.kept r t ht hst]
  case listed => grind [h.listed]
  case connected => grind [h.connected]
  case hosted =>
    intro name c id hc hseen hrunning
    have hplace := hp.hosted name c id .running hc hrunning
    have hup : c.running = true := by
      by_contra hstopped
      have := (hw.stopped name c hc (by simpa using hstopped)).1
      simp [this] at hrunning
    by_cases hname : name = (net.conn k).server
    · -- the devenv of the hello itself: it lists its sessions
      subst hname
      have hserving := hturn.serving c hc
      have hid := h.listed _ c k i ids hc hserving hhello id hrunning
      have hident := hw.hello _ c k i ids hc hserving hhello
      simp [hid, hident, Container.ident]
    · -- another devenv: the hello does not touch its sessions
      have hother := hturn.others name c hc hname hup
      have hid : id ∉ ids := by
        intro hid
        rw [hlisted id hid] at hplace
        exact hname (Place.hosted.inj hplace).symm
      have hhost := h.hosted name c id hc (hseen.resolve_right hother) hrunning
      simp [hid, hhost, hother]
  case flying =>
    intro j r id key hframe hkey hseen
    by_cases hj : j = k
    · subst hj
      simp [hw.silent j (hw.greeted j i ids hhello)] at hframe
    simp only [hj, if_false] at hframe hkey
    have hid : id ∉ ids := by
      intro hid
      have hflying := hp.flying j r id hframe
      rw [hlisted id hid] at hflying
      cases hflying
    have hleft : (net.conn j).left = false := by
      by_contra hleft
      simp [(hw.left j (by simpa using hleft)).2] at hframe
    obtain ⟨c, hc, hrun, hserving⟩ := hw.live j hleft
    have hident := hw.ident _ c j key hc hserving hkey
    have hother : key ≠ i.getD defaultIdent := by
      intro hsame
      by_cases hname : (net.conn j).server = (net.conn k).server
      · have := hturn.serving c (hname ▸ hc)
        rw [hserving] at this
        exact hj (Option.some.inj this)
      · exact hturn.others _ c hc hname hrun (hident ▸ hsame)
    have hhost := h.flying j r id key hframe hkey (hseen.resolve_right hother)
    simp [hid, hhost, hother]

theorem Quiet.greet {key : String} (h : Quiet quiet net) (hturn : Hailed net k key) :
    Quiet quiet (net.greeted k rest key ids) := by
  cases h
  cases hturn
  constructor
  all_goals simp only [Net.greeted, Net.setConn, Function.update_apply]
  all_goals grind

end Growth

/-! ## The conditions -/

/-- A frame names a session. -/
def DevenvToNode.names (id : Uuid) : DevenvToNode → Bool
  | .hello _ ids => ids.contains id
  | .spawnResult _ _ => false
  | .exited id' _ => id' == id

/-- Nothing of an earlier shell of this id is left: no container has an entry for it or a pump
that may still remove one, no frame on its way names it, and no other spawn of it is under way. -/
def Unused (net : Net) (id : Uuid) : Prop :=
  (∀ entry ∈ net.containers.toList, entry.2.sessions[id]? = none ∧
    (∀ p ∈ entry.2.pumps, p.id ≠ id) ∧ id ∉ entry.2.removing) ∧
  (∀ k < net.dialled, (∀ frame ∈ (net.conn k).up, frame.names id = false) ∧
    ∀ frame ∈ (net.conn k).down, frame.starts ≠ some id) ∧
  ∀ r < net.replies, ∀ t ∈ net.tasks r, t.id ≠ id

/-- No container runs a shell of this id, and no frame on its way starts one. -/
def NotStarted (net : Net) (id : Uuid) : Prop :=
  (∀ entry ∈ net.containers.toList, entry.2.sessions[id]? ≠ some .running) ∧
  ∀ k < net.dialled, ∀ frame ∈ (net.conn k).down, frame.starts ≠ some id

/-- The hello of `k` under `key` is its container's last, no other running container goes by this
ident, and no registered spawn is still to be sent to it. -/
def InTurn (net : Net) (k : ConnectionId) (key : String) : Prop :=
  (∀ entry ∈ net.containers.toList,
    if entry.1 = (net.conn k).server then entry.2.serving = some k
    else entry.2.running = true → entry.2.ident ≠ key) ∧
  ∀ r < net.replies, ∀ t ∈ net.tasks r, t.stage = .sending → t.target ≠ key

/-- A step in order. -/
def Orderly (net : Net) : Action → Prop
  | .register id => Unused net id
  | .cleanUp r => ∀ t ∈ net.tasks r, NotStarted net t.id
  | .handle k =>
      match (net.conn k).up with
      | .hello ident _ :: _ => InTurn net k (ident.getD defaultIdent)
      | _ => True
  | _ => True

instance (net : Net) (id : Uuid) : Decidable (Unused net id) :=
  inferInstanceAs (Decidable (_ ∧ _ ∧ _))

instance (net : Net) (id : Uuid) : Decidable (NotStarted net id) :=
  inferInstanceAs (Decidable (_ ∧ _))

instance (net : Net) (k : ConnectionId) (key : String) : Decidable (InTurn net k key) :=
  inferInstanceAs (Decidable (_ ∧ _))

instance (net : Net) (a : Action) : Decidable (Orderly net a) := by
  unfold Orderly
  split <;> try infer_instance
  split <;> infer_instance

section Conditions

variable {place : Uuid → Place} {net : Net} {k : ConnectionId} {id : Uuid} {key : String}

theorem Free.of_unused (hw : Wired net) (hp : Placed place net) (h : Unused net id) :
    Free net id := by
  obtain ⟨hcs, hconns, htasks⟩ := h
  have hentry : ∀ (name : String) c, net.containers[name]? = some c →
      c.sessions[id]? = none ∧ (∀ p ∈ c.pumps, p.id ≠ id) ∧ id ∉ c.removing := fun name c hc =>
    hcs (name, c) (Std.ExtTreeMap.mem_toList_iff_getElem?_eq_some.mpr hc)
  have hconn : ∀ k, (∀ frame ∈ (net.conn k).up, frame.names id = false) ∧
      ∀ frame ∈ (net.conn k).down, frame.starts ≠ some id := by
    intro k
    by_cases hk : k < net.dialled
    · exact hconns k hk
    · have hd := hw.dialled k (Nat.le_of_not_lt hk)
      simp [hd.2.1, (hw.left k hd.1).2]
  constructor
  · exact fun name c hc => (hentry name c hc).1
  · exact fun name c hc => (hentry name c hc).2.1
  · exact fun name c hc => (hentry name c hc).2.2
  · exact fun k r hframe => (hconn k).2 _ hframe rfl
  · intro k code hframe
    simpa [DevenvToNode.names] using (hconn k).1 _ hframe
  · intro k i ids hframe
    simpa [DevenvToNode.names] using (hconn k).1 _ hframe
  · exact fun r t ht => htasks r (hp.tasks r t ht).1 t ht

theorem NotStarted.spec (hw : Wired net) (h : NotStarted net id) :
    (∀ (name : String) c, net.containers[name]? = some c → c.sessions[id]? ≠ some .running) ∧
      ∀ k r, .spawn r id ∉ (net.conn k).down := by
  obtain ⟨hcs, hconns⟩ := h
  constructor
  · exact fun name c hc => hcs (name, c) (Std.ExtTreeMap.mem_toList_iff_getElem?_eq_some.mpr hc)
  · intro k r hframe
    by_cases hk : k < net.dialled
    · exact hconns k hk _ hframe rfl
    · have hd := hw.dialled k (Nat.le_of_not_lt hk)
      simp [(hw.left k hd.1).2] at hframe

theorem Hailed.of_inTurn (hp : Placed place net) (h : InTurn net k key) : Hailed net k key := by
  obtain ⟨hcs, htasks⟩ := h
  have hentry : ∀ (name : String) c, net.containers[name]? = some c →
      if name = (net.conn k).server then c.serving = some k else c.running = true → c.ident ≠ key :=
    fun name c hc => hcs (name, c) (Std.ExtTreeMap.mem_toList_iff_getElem?_eq_some.mpr hc)
  constructor
  · intro c hc
    simpa using hentry _ c hc
  · intro name c hc hname
    simpa [hname] using hentry name c hc
  · exact fun r t ht => htasks r (hp.tasks r t ht).1 t ht

theorem Hailed.failPendingFor (h : Hailed net k key) : Hailed (net.failPendingFor key) k key := by
  refine ⟨h.serving, h.others, fun r t' ht' hst => ?_⟩
  obtain ⟨t, ht, rfl⟩ := Option.map_eq_some_iff.mp ht'
  have := h.unsent r t ht
  grind

end Conditions

/-! ## Steps -/

section Steps

variable {g : Ghost} {net net' : Net} {name host : String} {k : ConnectionId} {l : Connection}
  {c c' : Container} {r : ReplyId} {id : Uuid} {code : Option Int} {p : Pump} {nUp nDown : Nat}
  {starts : Bool}

namespace Tracked

theorem setConn (h : Tracked g net) (hl : (net.conn k).Fades (Over g.place net) l) :
    Tracked g (net.setConn k l) :=
  ⟨h.wired.setConn hl, h.placed.setConn hl, h.known.setConn hl, h.quiet.setConn hl⟩

theorem setContainer (h : Tracked g net) (hc : net.containers[name]? = some c) (hf : c.Fades c')
    (hrun : ∀ k, c.serving = some k → (net.conn k).left = false → c'.running = true) :
    Tracked g (net.setContainer name c') :=
  ⟨h.wired.setContainer hc hf hrun, h.placed.setContainer hc hf, h.known.setContainer hc hf,
    h.quiet.setContainer hc hf⟩

theorem link (h : Tracked g net) (hf : net.LinkFades net') : Tracked g net' :=
  ⟨h.wired.link hf, h.placed.link hf, h.known.link hf, h.quiet.link hf⟩

theorem cut (h : Tracked g net) (hstep : net.cut k nUp nDown = some net') : Tracked g net' := by
  obtain ⟨hcut, rfl⟩ := Net.cut_some hstep
  apply h.setConn
  have hleft := h.wired.left k
  constructor
  case spawnOnce => exact fun hn => hn.sublist ((List.take_sublist _ _).filterMap _)
  case once => exact fun honce i ids hmem => honce i ids ((List.take_sublist _ _).tail.subset hmem)
  all_goals grind [List.mem_of_mem_take]

theorem leave (h : Tracked g net) (hstep : net.leave name = some net') : Tracked g net' := by
  obtain ⟨c, k, hc, hk, hcut, hleft, rfl⟩ := Net.leave_some hstep
  apply h.setConn
  constructor
  all_goals grind

theorem exit (h : Tracked g net) (hstep : net.exit name id code = some net') : Tracked g net' := by
  obtain ⟨c, hc, hrun, rfl⟩ := Net.exit_some hstep
  have hstopped := h.wired.stopped name c hc
  have hlive := h.wired.live
  have hserving := h.wired.serving name c
  apply h.setContainer hc
  · constructor
    all_goals simp only [Table.lookup_insert]
    all_goals grind
  · grind

theorem report (h : Tracked g net) (hstep : net.report name p = some net') : Tracked g net' := by
  obtain ⟨c, code, hc, hcode, hp, rfl⟩ := Net.report_some hstep
  have hover := h.placed.ended name c p hc hp (by simp [hcode])
  have hgreeted := h.wired.greeted
  have hstopped := h.wired.stopped name c hc
  have hlive := h.wired.live
  have hserving := h.wired.serving name c
  have hleft := h.wired.left p.connection
  have h' := h.setConn (k := p.connection)
    (l := (net.conn p.connection).writeUp (.exited p.id code)) (by
      unfold Connection.writeUp
      split
      · constructor <;> grind
      · constructor <;> grind)
  apply h'.setContainer hc
  · constructor <;> grind
  · grind

theorem forget (h : Tracked g net) (hstep : net.forget name id = some net') : Tracked g net' := by
  obtain ⟨c, hc, hid, rfl⟩ := Net.forget_some hstep
  have hstopped := h.wired.stopped name c hc
  have hlive := h.wired.live
  have hserving := h.wired.serving name c
  apply h.setContainer hc
  · constructor
    all_goals simp only [Std.ExtTreeMap.getElem?_erase]
    all_goals grind
  · grind

theorem stopPump (h : Tracked g net) (hstep : net.stopPump name p = some net') :
    Tracked g net' := by
  obtain ⟨c, hc, hp, hcut, rfl⟩ := Net.stopPump_some hstep
  have hstopped := h.wired.stopped name c hc
  have hlive := h.wired.live
  have hserving := h.wired.serving name c
  apply h.setContainer hc
  · constructor <;> grind
  · grind

theorem start (h : Tracked g net) (hstep : net.start name = some net') : Tracked g net' := by
  obtain ⟨c, hc, hrun, rfl⟩ := Net.start_some hstep
  apply h.setContainer hc
  · constructor <;> grind
  · grind

theorem sendFails (h : Tracked g net) (hstep : net.sendFails r = some net') : Tracked g net' := by
  obtain ⟨t, k, ht, hst, hk, hcut, rfl⟩ := Net.sendFails_some hstep
  exact h.link (.setTask fun t' ht' => by grind)

theorem giveUp (h : Tracked g net) (hstep : net.giveUp r = some net') : Tracked g net' := by
  obtain ⟨t, ht, hst, ha, rfl⟩ := Net.giveUp_some hstep
  exact h.link (.setTask fun t' ht' => by grind)

theorem finish (h : Tracked g net) (hstep : net.finish r = some net') : Tracked g net' := by
  obtain ⟨t, ht, hst, ha, rfl⟩ := Net.finish_some hstep
  exact h.link (.setTask fun t' ht' => by grind)

theorem sendKill (h : Tracked g net) (hstep : net.sendKill host id = some net') :
    Tracked g net' := by
  obtain ⟨k, hk, rfl⟩ := Net.sendKill_some hstep
  have hident := h.wired.route host k hk
  have hleft := h.wired.left k
  apply h.setConn
  unfold Connection.writeDown
  split
  · constructor <;> grind
  · constructor <;> grind [NodeToDevenv.starts]

theorem dial (h : Tracked g net) (hstep : net.dial name = some net') : Tracked g net' := by
  obtain ⟨c, hc, hrun, hfree, rfl⟩ := Net.dial_some hstep
  exact ⟨h.wired.dial hc hrun hfree, h.placed.dial hc, h.known.dial h.wired hc,
    h.quiet.dial h.wired hc⟩

theorem dropServing (h : Tracked g net) (nUp : Nat) : Tracked g (net.dropServing c nUp) := by
  unfold Net.dropServing
  split
  · exact h
  · rename_i k hserving
    have hleft := h.wired.left k
    have hsub : (if (net.conn k).cut then (net.conn k).up
        else (net.conn k).up.take nUp).Sublist (net.conn k).up := by
      split
      · exact List.Sublist.refl _
      · exact List.take_sublist _ _
    apply h.setConn
    constructor
    case once => exact fun honce i ids hmem => honce i ids (hsub.tail.subset hmem)
    all_goals grind [hsub.subset]

theorem stop (h : Tracked g net) (hstep : net.stop name nUp = some net') : Tracked g net' := by
  obtain ⟨c, hc, hrun, rfl⟩ := Net.stop_some hstep
  apply (h.dropServing nUp).setContainer (c := c)
  · simpa using hc
  · constructor <;> grind
  · intro k hk hleft
    simp [net.left_dropServing hk nUp] at hleft

theorem register (h : Tracked g net) (hok : Unused net id) (hstep : net.register id = some net') :
    Tracked { g with place := Function.update g.place id (.unsent net.replies) } net' := by
  obtain ⟨-, rfl⟩ := Net.register_some hstep
  have hfree := Free.of_unused h.wired h.placed hok
  exact ⟨h.wired.register, h.placed.register hfree, h.known.register hfree,
    h.quiet.register h.wired⟩

theorem send (h : Tracked g net) (hstep : net.send r = some net') :
    ∃ place, Tracked { g with place := place } net' := by
  obtain ⟨t, ht, hst, ⟨hroute, rfl⟩ | ⟨k, hk, rfl⟩⟩ := Net.send_some hstep
  · exact ⟨g.place, h.link (.setTask fun t' ht' => by grind)⟩
  · exact ⟨_, h.wired.send hk, h.placed.send ht hst, h.known.send h.wired ht hst hk,
      h.quiet.send h.wired ht hst hk⟩

theorem cleanUp (h : Tracked g net) (hok : ∀ t ∈ net.tasks r, NotStarted net t.id)
    (hstep : net.cleanUp r = some net') : Tracked g net' := by
  obtain ⟨t, ht, hst, rfl⟩ := Net.cleanUp_some hstep
  obtain ⟨hhosted, hflying⟩ := NotStarted.spec h.wired (hok t ht)
  have hone := (h.placed.tasks r t ht).2
  apply h.link
  constructor
  case tasks => grind
  case hosts =>
    intro id
    simp only [Std.ExtTreeMap.getElem?_erase]
    grind
  all_goals first | rfl | exact fun _ _ hk => hk

theorem receive (h : Tracked g net) (hstep : net.receive name starts = some net') :
    ∃ place, Tracked { g with place := place } net' := by
  obtain ⟨c, k, hc, hk, hframe⟩ := Net.receive_some hstep
  have hserver := (h.wired.serving name c k hc hk).1
  have hleft : (net.conn k).left = false := by
    by_contra hleft
    have := (h.wired.left k (by simpa using hleft)).2
    grind
  obtain ⟨c', hc', hrun, -⟩ := h.wired.live k hleft
  obtain rfl : c' = c := by grind
  have hident : (net.conn k).ident ≠ none := by
    intro hnone
    have := h.wired.silent k hnone
    grind
  obtain ⟨reply, id, rest, hdown, rfl⟩ | ⟨id, rest, hdown, hkill⟩ := hframe
  · have h1 := h.setConn (k := k) (l := { net.conn k with down := rest }) (by
      constructor <;> grind)
    have hid : g.place id = .flying k := h.placed.flying k reply id (by simp [hdown])
    have hfree : ∀ j r,
        .spawn r id ∉ ((net.setConn k { net.conn k with down := rest }).conn j).down := by
      intro j r hmem
      have hj := h1.placed.flying j r id hmem
      have honce := h.placed.flyingOnce k
      have hcons : (NodeToDevenv.spawn reply id :: rest).filterMap NodeToDevenv.starts =
          id :: rest.filterMap NodeToDevenv.starts := rfl
      rw [hdown, hcons, List.nodup_cons, mem_starts] at honce
      grind
    have h2 : ∀ ok, Tracked g ((net.setConn k { net.conn k with down := rest }).setConn k
        (((net.setConn k { net.conn k with down := rest }).conn k).writeUp
          (.spawnResult reply ok))) := by
      intro ok
      apply h1.setConn
      unfold Connection.writeUp
      split <;> constructor <;> grind
    unfold Net.handleSpawn
    split
    · exact ⟨g.place, h2 false⟩
    · refine ⟨Function.update g.place id (.hosted name), (h2 true).wired.host hc hrun,
        (h2 true).placed.host hc ?_ hid, (h2 true).known.host hc hk ?_ ?_,
        (h2 true).quiet.host hc ?_⟩
      · intro j r hmem
        apply hfree j r
        grind [Connection.writeUp]
      · intro i ids hmem
        have := (h2 true).wired.greeted k i ids hmem
        grind [Connection.writeUp]
      · intro hseen
        obtain ⟨key, hkey⟩ := Option.ne_none_iff_exists'.mp hident
        have := h.wired.ident name c' k key hc hk hkey
        exact h.known.flying k reply id _ (by simp [hdown]) (this ▸ hkey) hseen
      · intro hquiet
        exact h.quiet.flying k reply id (hserver ▸ hquiet) (by simp [hdown])
  · have h1 := h.setConn (k := k) (l := { net.conn k with down := rest }) (by
      constructor <;> grind)
    obtain rfl | ⟨hid, rfl⟩ := hkill
    · exact ⟨g.place, h1⟩
    · refine ⟨g.place, h1.setContainer hc ?_ ?_⟩
      · constructor <;> grind
      · grind

theorem popUp {frame : DevenvToNode} {rest : List DevenvToNode} (h : Tracked g net)
    (hup : (net.conn k).up = frame :: rest) :
    Tracked g (net.setConn k { net.conn k with up := rest }) := by
  apply h.setConn
  constructor
  case once =>
    intro honce i ids hmem
    apply honce i ids
    rw [hup]
    exact List.mem_of_mem_tail hmem
  all_goals grind [h.wired.left k]

theorem handle (h : Tracked g net) (hok : Orderly net (.handle k))
    (hstep : net.handle k = some net') :
    ∃ seen, (∀ i, g.seen i → seen i) ∧ Tracked { g with seen := seen } net' := by
  obtain ⟨frame, rest, hup, hclosed, rfl⟩ := Net.handle_some hstep
  cases frame with
  | hello ident ids =>
      have hturn : InTurn net k (ident.getD defaultIdent) := by simpa [Orderly, hup] using hok
      have h0 := h.link (.failPendingFor net (ident.getD defaultIdent))
      have hhailed := (Hailed.of_inTurn h.placed hturn).failPendingFor
      have heq : (net.setConn k { net.conn k with up := rest }).handleFrame k (.hello ident ids) =
          (net.failPendingFor (ident.getD defaultIdent)).greeted k rest (ident.getD defaultIdent)
            ids := by
        simp [Net.handleFrame, Net.greeted, Net.setConn, Net.failPendingFor]
      rw [heq]
      exact ⟨fun i => g.seen i ∨ i = ident.getD defaultIdent, fun i hi => .inl hi,
        h0.wired.greet hup, h0.placed.greet hup, h0.known.greet h0.wired h0.placed hhailed hup,
        h0.quiet.greet hhailed⟩
  | spawnResult r ok =>
      have h1 := h.popUp hup
      refine ⟨g.seen, fun _ hi => hi, ?_⟩
      simp only [Net.handleFrame]
      split
      · exact h1
      · split
        · exact h1.link (.setTask fun t' ht' => by grind)
        · exact h1
  | exited id code =>
      have h1 := h.popUp hup
      obtain ⟨hhosted, hover⟩ := h.placed.reported k id code (by simp [hup])
      refine ⟨g.seen, fun _ hi => hi, h1.link ?_⟩
      constructor
      case tasks => exact fun r t ht => ⟨t, ht, rfl, rfl, fun hst => hst⟩
      case connections => exact fun _ _ hj => hj
      case hosts =>
        intro id'
        simp only [Net.handleFrame, Std.ExtTreeMap.getElem?_erase]
        by_cases hid : id = id'
        · subst hid
          refine .inr ⟨hover, fun j r hmem => ?_, fun r t ht hst hid => ?_⟩
          · have hplace := h1.placed.flying j r id hmem
            simp [hplace, Place.isHosted] at hhosted
          · have hplace := h1.placed.unsent r t ht hst
            rw [← hid, hplace] at hhosted
            cases hhosted
        · left
          simp [hid, Net.setConn]
      all_goals rfl

theorem hangUp (h : Tracked g net) (hstep : net.hangUp k = some net') : Tracked g net' := by
  obtain ⟨hcut, hup, hclosed, hend⟩ := Net.hangUp_some hstep
  have h1 := h.setConn (k := k) (l := { net.conn k with closed := true }) (by
    constructor <;> grind [h.wired.left k])
  obtain ⟨-, rfl⟩ | ⟨key, hkey, rfl⟩ := hend
  · exact h1
  · exact (h1.link (.unroute _ key k)).link (.failPendingFor _ key)

/-- **A step in order keeps track of every session.** -/
theorem step {a : Action} (h : Tracked g net) (hok : Orderly net a)
    (hstep : net.step a = some net') :
    ∃ g', (∀ i, g.seen i → g'.seen i) ∧ g'.quiet = g.quiet ∧ Tracked g' net' := by
  have same : Tracked g net' → ∃ g', (∀ i, g.seen i → g'.seen i) ∧ g'.quiet = g.quiet ∧
      Tracked g' net' := fun h' => ⟨g, fun _ hi => hi, rfl, h'⟩
  cases a with
  | dial name => exact same (h.dial hstep)
  | cut k nUp nDown => exact same (h.cut hstep)
  | leave name => exact same (h.leave hstep)
  | receive name starts =>
      obtain ⟨place, h'⟩ := h.receive hstep
      exact ⟨{ g with place := place }, fun _ hi => hi, rfl, h'⟩
  | exit name id code => exact same (h.exit hstep)
  | report name p => exact same (h.report hstep)
  | forget name id => exact same (h.forget hstep)
  | stopPump name p => exact same (h.stopPump hstep)
  | stop name nUp => exact same (h.stop hstep)
  | start name => exact same (h.start hstep)
  | handle k =>
      obtain ⟨seen, hseen, h'⟩ := h.handle hok hstep
      exact ⟨{ g with seen := seen }, hseen, rfl, h'⟩
  | hangUp k => exact same (h.hangUp hstep)
  | register id =>
      exact ⟨{ g with place := Function.update g.place id (.unsent net.replies) },
        fun _ hi => hi, rfl, h.register hok hstep⟩
  | send r =>
      obtain ⟨place, h'⟩ := h.send hstep
      exact ⟨{ g with place := place }, fun _ hi => hi, rfl, h'⟩
  | sendFails r => exact same (h.sendFails hstep)
  | giveUp r => exact same (h.giveUp hstep)
  | cleanUp r => exact same (h.cleanUp hok hstep)
  | finish r => exact same (h.finish hstep)
  | sendKill host id => exact same (h.sendKill hstep)

end Tracked

end Steps

/-! ## The start -/

/-- A node process has just started: its link is empty, the connections of earlier processes are
over, and the containers are whatever these have left. -/
structure Fresh (net : Net) : Prop where
  connections : ∀ i, net.connections i = none
  sessionHost : net.sessionHost = ∅
  currentIdent : net.currentIdent = defaultIdent
  tasks : ∀ r, net.tasks r = none
  conn : ∀ k, (net.conn k).left = true ∧ (net.conn k).cut = true ∧ (net.conn k).up = [] ∧
    (net.conn k).down = [] ∧ (net.conn k).ident = none
  serving : ∀ (name : String) c k, net.containers[name]? = some c → c.serving = some k →
    (net.conn k).server = name ∧ k < net.dialled
  stopped : ∀ (name : String) c, net.containers[name]? = some c → c.running = false →
    c.sessions = ∅ ∧ c.pumps = [] ∧ c.removing = []
  /-- A session is hosted once. -/
  hosted : ∀ (name name' : String) c c' (id : Uuid), net.containers[name]? = some c →
    net.containers[name']? = some c' → id ∈ c.sessions → id ∈ c'.sessions → name = name'
  ended : ∀ (name : String) c p, net.containers[name]? = some c → p ∈ c.pumps → p.exit ≠ none →
    ∃ code, c.sessions[p.id]? = some (.exited code)
  removing : ∀ (name : String) c (id : Uuid), net.containers[name]? = some c → id ∈ c.removing →
    ∃ code, c.sessions[id]? = some (.exited code)

/-- At the start no ident has been connected, and no container is known to be quiet. -/
theorem Fresh.tracked {net : Net} (h : Fresh net) :
    ∃ place, Tracked ⟨place, fun _ => False, fun _ => False⟩ net := by
  classical
  let hosts (id : Uuid) (name : String) : Prop :=
    ∃ c, net.containers[name]? = some c ∧ id ∈ c.sessions
  let place (id : Uuid) : Place :=
    if hid : ∃ name, hosts id name then .hosted hid.choose else .unsent 0
  have hplace : ∀ (name : String) c (id : Uuid), net.containers[name]? = some c →
      id ∈ c.sessions → place id = .hosted name := by
    intro name c id hc hid
    have hex : ∃ name, hosts id name := ⟨name, c, hc, hid⟩
    obtain ⟨c', hc', hid'⟩ := hex.choose_spec
    show (if hid : ∃ name, hosts id name then Place.hosted hid.choose else .unsent 0) = _
    rw [dif_pos hex, h.hosted _ _ c' c id hc' hc hid' hid]
  have hover : ∀ (name : String) c (id : Uuid) code, net.containers[name]? = some c →
      c.sessions[id]? = some (.exited code) → Over place net id := by
    intro name c id code hc hid
    have hmem : id ∈ c.sessions := Std.ExtTreeMap.mem_iff_isSome_getElem?.mpr (by simp [hid])
    refine ⟨by rw [hplace name c id hc hmem]; rfl, fun name' c' hc' hrun => ?_⟩
    have hmem' : id ∈ c'.sessions := Std.ExtTreeMap.mem_iff_isSome_getElem?.mpr (by simp [hrun])
    obtain rfl := h.hosted name name' c c' id hc hc' hmem hmem'
    obtain rfl := Option.some.inj (hc.symm.trans hc')
    rw [hid] at hrun
    cases hrun
  have hup : ∀ k frame, frame ∉ (net.conn k).up := by
    intro k frame hmem
    rw [(h.conn k).2.2.1] at hmem
    exact List.not_mem_nil hmem
  have hdown : ∀ k frame, frame ∉ (net.conn k).down := by
    intro k frame hmem
    rw [(h.conn k).2.2.2.1] at hmem
    exact List.not_mem_nil hmem
  have htask : ∀ r t, net.tasks r ≠ some t := by
    intro r t ht
    rw [h.tasks r] at ht
    cases ht
  have hroute : ∀ i k, net.connections i ≠ some k := by
    intro i k hk
    rw [h.connections i] at hk
    cases hk
  refine ⟨place, ?wired, ?placed, ?known, ?quiet⟩
  case wired =>
    constructor
    case dialled => exact fun k _ => ⟨(h.conn k).1, (h.conn k).2.2.1, (h.conn k).2.2.2.2⟩
    case serving => exact h.serving
    case live =>
      intro k hleft
      rw [(h.conn k).1] at hleft
      cases hleft
    case left => exact fun k _ => ⟨(h.conn k).2.1, (h.conn k).2.2.2.1⟩
    case silent => exact fun k _ => (h.conn k).2.2.2.1
    case ident =>
      intro name c k key _ _ hident
      rw [(h.conn k).2.2.2.2] at hident
      cases hident
    case hello => exact fun name c k i ids _ _ hmem => absurd hmem (hup k _)
    case greeted => exact fun k i ids hmem => absurd hmem (hup k _)
    case once => exact fun k i ids hmem => hup k _ (List.mem_of_mem_tail hmem)
    case route => exact fun i k hk => absurd hk (hroute i k)
    case stopped => exact h.stopped
  case placed =>
    constructor
    case hosted =>
      exact fun name c id sh hc hid =>
        hplace name c id hc (Std.ExtTreeMap.mem_iff_isSome_getElem?.mpr (by simp [hid]))
    case flying => exact fun k r id hmem => absurd hmem (hdown k _)
    case flyingOnce =>
      intro k
      rw [(h.conn k).2.2.2.1]
      exact List.nodup_nil
    case unsent => exact fun r t ht => absurd ht (htask r t)
    case tasks => exact fun r t ht => absurd ht (htask r t)
    case named => exact fun k i ids id hmem => absurd hmem (hup k _)
    case reported => exact fun k id code hmem => absurd hmem (hup k _)
    case ended =>
      intro name c p hc hp hended
      obtain ⟨code, hcode⟩ := h.ended name c p hc hp hended
      exact hover name c p.id code hc hcode
    case removed =>
      intro name c id hc hid
      obtain ⟨code, hcode⟩ := h.removing name c id hc hid
      exact hover name c id code hc hcode
  case known =>
    constructor
    case kept => exact fun r t ht => absurd ht (htask r t)
    case listed => exact fun name c k i ids _ _ hmem => absurd hmem (hup k _)
    case connected => exact fun i k hk => absurd hk (hroute i k)
    case hosted => exact fun name c id _ hseen => hseen.elim
    case flying => exact fun k r id i hmem => absurd hmem (hdown k _)
  case quiet => exact quiet_none net

end Sulion.Devenv
