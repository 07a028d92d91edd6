import Sulion.Basic
import Sulion.Lib.Table
import Sulion.Lib.Transition

set_option autoImplicit false

/-! # The devenv servers and the node's link to them

`devenv/server.rs` and `devenv/link.rs`. A devenv server owns the shells of one container and
serves one node connection at a time: a hello with its inventory, then, for each session, a pump
that sends the exit of its shell and takes the session off the server. The link routes by ident,
keeps the devenv that hosts each session, and runs its spawns as tasks: the registration, the
send, the wait for the answer and the clean-up each take the link's lock once, and other steps
come between them.

A connection carries a queue of frames each way. When it is cut, the frames that had not got
through by then are lost, and so is whatever either side still writes; the node handles what is
left and hangs up, and the server goes on to dial again. Input, resize, output and snapshot
frames change nothing modelled here. The link's `outputs` map has the keys of `session_host`:
the two change together in every step, so the second stands for both.
-/

namespace Sulion.Devenv

abbrev ConnectionId := Nat

abbrev ReplyId := Nat

/-- `DEFAULT_IDENT`. -/
def defaultIdent : String := "default"

/-- The process of a session, as its server's exit watch has it. -/
inductive Shell
  | running
  | exited (code : Option Int)
  deriving DecidableEq, Repr

def Shell.exit : Shell → Option (Option Int)
  | .running => none
  | .exited code => some code

/-- A task of `start_pump`: its session, its connection, and what its exit watch holds. -/
structure Pump where
  id : Uuid
  connection : ConnectionId
  exit : Option (Option Int)
  deriving DecidableEq, Repr

/-- A container of the owner's Docker daemon and the devenv server in it. -/
structure Container where
  owned : Bool
  /-- The `sulion.devenv.image-id` label. -/
  imageId : Option String
  running : Bool
  sessions : Table Uuid Shell
  pumps : List Pump
  /-- The sessions whose exit a pump has sent and which it removes next. -/
  removing : List Uuid
  /-- The sessions a kill is under way for. -/
  killing : List Uuid
  /-- The connection dialled last. -/
  serving : Option ConnectionId

/-- The ident a container's devenv goes by. -/
def Container.ident (c : Container) : String := c.imageId.getD defaultIdent

inductive DevenvToNode
  | hello (ident : Option String) (sessions : List Uuid)
  | spawnResult (reply : ReplyId) (ok : Bool)
  | exited (id : Uuid) (code : Option Int)
  deriving DecidableEq, Repr

inductive NodeToDevenv
  | spawn (reply : ReplyId) (id : Uuid)
  | kill (id : Uuid)
  deriving DecidableEq, Repr

/-- A connection between a devenv server and the link. -/
structure Connection where
  /-- The container that dialled it. -/
  server : String
  /-- The frames on their way to the node. -/
  up : List DevenvToNode
  /-- The frames on their way to the devenv. -/
  down : List NodeToDevenv
  /-- Nothing written from here on gets through. -/
  cut : Bool
  /-- `serve` has returned. -/
  left : Bool
  /-- `connection_ident`, known from the hello on. -/
  ident : Option String
  /-- `handle_connection` has returned. -/
  closed : Bool

/-- A connection number that has not been dialled. -/
def Connection.undialled : Connection :=
  { server := "", up := [], down := [], cut := true, left := true, ident := none,
    closed := true }

/-- Where a call of `DevenvLink::spawn` is. -/
inductive Stage
  /-- Registered; `send_to` comes next. -/
  | sending
  /-- Sent; it waits for the answer. -/
  | waiting
  /-- Its clean-up comes next. -/
  | failing
  deriving DecidableEq, Repr

/-- A call of `DevenvLink::spawn`, with its entry in `pending_spawns`. -/
structure SpawnTask where
  id : Uuid
  target : String
  stage : Stage
  /-- What its channel holds; the entry in `pending_spawns` stands until it holds something. -/
  answer : Option Bool
  deriving DecidableEq, Repr

inductive LinkEvent
  | connected (ident : String) (sessions : List Uuid)
  | exited (id : Uuid) (code : Option Int)
  deriving DecidableEq, Repr

/-- The containers, the connections and the link. -/
structure Net where
  containers : Table String Container
  conn : ConnectionId → Connection
  /-- The number of connections so far. -/
  dialled : Nat
  /-- `connections`: the connection frames for an ident go out on. -/
  connections : String → Option ConnectionId
  sessionHost : Table Uuid String
  currentIdent : String
  tasks : ReplyId → Option SpawnTask
  /-- The number of spawns so far. -/
  replies : Nat
  events : List LinkEvent

/-- A frame written to the node: it gets through unless the connection is cut. -/
def Connection.writeUp (l : Connection) (frame : DevenvToNode) : Connection :=
  if l.cut then l else { l with up := l.up ++ [frame] }

/-- A frame written to the devenv. -/
def Connection.writeDown (l : Connection) (frame : NodeToDevenv) : Connection :=
  if l.cut then l else { l with down := l.down ++ [frame] }

namespace Net

def setContainer (net : Net) (name : String) (c : Container) : Net :=
  { net with containers := net.containers.insert name c }

def setConn (net : Net) (k : ConnectionId) (l : Connection) : Net :=
  { net with conn := Function.update net.conn k l }

def setTask (net : Net) (r : ReplyId) (t : Option SpawnTask) : Net :=
  { net with tasks := Function.update net.tasks r t }

/-- `is_connected`. -/
def isConnected (net : Net) (ident : String) : Bool := (net.connections ident).isSome

/-- `hosted_sessions`. -/
def hostedSessions (net : Net) (ident : String) : Nat :=
  (net.sessionHost.toList.filter fun entry => entry.2 == ident).length

/-! ## The server -/

/-- A devenv dials: its hello, and a pump for each session. -/
def dial (net : Net) (name : String) : Option Net :=
  match net.containers[name]? with
  | none => none
  | some c =>
      let free : Bool := c.serving.all fun k => (net.conn k).left
      if c.running && free then
        let k := net.dialled
        let pumps := c.sessions.toList.map fun entry => Pump.mk entry.1 k entry.2.exit
        let l : Connection :=
          { server := name, up := [.hello c.imageId c.sessions.keys], down := [], cut := false,
            left := false, ident := none, closed := false }
        some (({ net with dialled := k + 1 }.setConn k l).setContainer name
          { c with pumps := c.pumps ++ pumps, serving := some k })
      else none

/-- A connection breaks: `nUp` and `nDown` frames have got through or still will. -/
def cut (net : Net) (k : ConnectionId) (nUp nDown : Nat) : Option Net :=
  let l := net.conn k
  if l.cut then none
  else some (net.setConn k { l with cut := true, up := l.up.take nUp, down := l.down.take nDown })

/-- `serve` returns: its read loop has ended, or a reply could not be sent. -/
def leave (net : Net) (name : String) : Option Net :=
  match net.containers[name]? with
  | none => none
  | some c =>
      match c.serving with
      | none => none
      | some k =>
          let l := net.conn k
          if l.cut && !l.left then some (net.setConn k { l with left := true, down := [] })
          else none

/-- `handle_spawn`; `starts` says whether `HostedPty::spawn` brings the shell up. -/
def handleSpawn (net : Net) (name : String) (c : Container) (k : ConnectionId) (reply : ReplyId)
    (id : Uuid) (starts : Bool) : Net :=
  if c.sessions.contains id || !starts then
    net.setConn k ((net.conn k).writeUp (.spawnResult reply false))
  else
    (net.setConn k ((net.conn k).writeUp (.spawnResult reply true))).setContainer name
      { c with sessions := c.sessions.insert id .running, pumps := c.pumps ++ [⟨id, k, none⟩] }

/-- The server handles the next frame of its connection. -/
def receive (net : Net) (name : String) (starts : Bool) : Option Net :=
  match net.containers[name]? with
  | none => none
  | some c =>
      match c.serving with
      | none => none
      | some k =>
          match (net.conn k).down with
          | [] => none
          | .spawn reply id :: rest =>
              let net := net.setConn k { net.conn k with down := rest }
              some (net.handleSpawn name c k reply id starts)
          | .kill id :: rest =>
              let net := net.setConn k { net.conn k with down := rest }
              if c.sessions.contains id then
                some (net.setContainer name { c with killing := id :: c.killing })
              else some net

/-- A shell exits; the pumps of its session see it. -/
def exit (net : Net) (name : String) (id : Uuid) (code : Option Int) : Option Net :=
  match net.containers[name]? with
  | none => none
  | some c =>
      if c.sessions[id]? = some .running then
        some (net.setContainer name
          { c with
            sessions := c.sessions.insert id (.exited code)
            pumps := c.pumps.map fun p =>
              if p.id = id ∧ p.exit = none then { p with exit := some code } else p
            killing := c.killing.filter (· ≠ id) })
      else none

/-- A pump that has seen the exit sends it; it removes the session next. -/
def report (net : Net) (name : String) (p : Pump) : Option Net :=
  match net.containers[name]? with
  | none => none
  | some c =>
      match p.exit with
      | none => none
      | some code =>
          if p ∈ c.pumps then
            let l := net.conn p.connection
            some ((net.setConn p.connection (l.writeUp (.exited p.id code))).setContainer name
              { c with pumps := c.pumps.erase p, removing := p.id :: c.removing })
          else none

/-- The pump removes its session from the server. -/
def forget (net : Net) (name : String) (id : Uuid) : Option Net :=
  match net.containers[name]? with
  | none => none
  | some c =>
      if id ∈ c.removing then
        some (net.setContainer name
          { c with sessions := c.sessions.erase id, removing := c.removing.erase id })
      else none

/-- A pump ends with its connection. -/
def stopPump (net : Net) (name : String) (p : Pump) : Option Net :=
  match net.containers[name]? with
  | none => none
  | some c =>
      if p ∈ c.pumps ∧ (net.conn p.connection).cut then
        some (net.setContainer name { c with pumps := c.pumps.erase p })
      else none

/-! ## The containers -/

/-- The connection of a server that is gone is cut, and nobody reads it any more. -/
def dropServing (net : Net) (c : Container) (nUp : Nat) : Net :=
  match c.serving with
  | none => net
  | some k =>
      let l := net.conn k
      net.setConn k
        { l with cut := true, left := true, down := [],
                 up := if l.cut then l.up else l.up.take nUp }

/-- A container stops, and its shells are gone. -/
def stop (net : Net) (name : String) (nUp : Nat) : Option Net :=
  match net.containers[name]? with
  | none => none
  | some c =>
      if c.running then
        some ((net.dropServing c nUp).setContainer name
          { c with running := false, sessions := ∅, pumps := [], removing := [], killing := [] })
      else none

/-- The restart policy brings a stopped container up again. -/
def start (net : Net) (name : String) : Option Net :=
  match net.containers[name]? with
  | none => none
  | some c => if c.running then none else some (net.setContainer name { c with running := true })

/-! ## The link -/

/-- `fail_pending_for`. -/
def failPendingFor (net : Net) (ident : String) : Net :=
  { net with
    tasks := fun r => (net.tasks r).map fun t =>
      if t.target = ident ∧ t.answer = none then { t with answer := some false } else t }

/-- The hosts after a hello: what the devenv no longer hosts goes, what it lists is its own. -/
def takeInventory (hosts : Table Uuid String) (key : String) (ids : List Uuid) :
    Table Uuid String :=
  ids.foldl (fun t id => t.insert id key)
    (hosts.filter fun id ident => !(ident == key && !ids.contains id))

/-- `handle_connection` on one frame. -/
def handleFrame (net : Net) (k : ConnectionId) : DevenvToNode → Net
  | .hello ident ids =>
      let key := ident.getD defaultIdent
      let net := net.failPendingFor key
      { net.setConn k { net.conn k with ident := some key } with
        connections := Function.update net.connections key (some k)
        sessionHost := takeInventory net.sessionHost key ids
        events := net.events ++ [.connected key ids] }
  | .spawnResult r ok =>
      match net.tasks r with
      | none => net
      | some t =>
          if t.answer = none then net.setTask r (some { t with answer := some ok }) else net
  | .exited id code =>
      { net with
        sessionHost := net.sessionHost.erase id
        events := net.events ++ [.exited id code] }

/-- The link handles the next frame of a connection. -/
def handle (net : Net) (k : ConnectionId) : Option Net :=
  let l := net.conn k
  match l.up with
  | [] => none
  | frame :: rest =>
      if l.closed then none
      else some ((net.setConn k { l with up := rest }).handleFrame k frame)

/-- The link comes to the end of a connection. -/
def hangUp (net : Net) (k : ConnectionId) : Option Net :=
  let l := net.conn k
  if l.cut && !l.closed && l.up.isEmpty then
    let net := net.setConn k { l with closed := true }
    match l.ident with
    | none => some net
    | some key =>
        -- a newer connection that has taken the ident over stays
        let routes :=
          if net.connections key = some k then Function.update net.connections key none
          else net.connections
        some ({ net with connections := routes }.failPendingFor key)
  else none

/-- `spawn` up to the send: the current ident is the target, and must be connected. -/
def register (net : Net) (id : Uuid) : Option Net :=
  if net.isConnected net.currentIdent then
    some { net with
      sessionHost := net.sessionHost.insert id net.currentIdent
      tasks := Function.update net.tasks net.replies
        (some ⟨id, net.currentIdent, .sending, none⟩)
      replies := net.replies + 1 }
  else none

/-- `send_to` of a spawn, on whatever connection its target has by now. -/
def send (net : Net) (r : ReplyId) : Option Net :=
  match net.tasks r with
  | none => none
  | some t =>
      if t.stage = .sending then
        match net.connections t.target with
        | none => some (net.setTask r (some { t with stage := .failing }))
        | some k =>
            some ((net.setTask r (some { t with stage := .waiting })).setConn k
              ((net.conn k).writeDown (.spawn r t.id)))
      else none

/-- `send_to` fails on a broken connection. -/
def sendFails (net : Net) (r : ReplyId) : Option Net :=
  match net.tasks r with
  | none => none
  | some t =>
      if t.stage = .sending ∧ (net.connections t.target).any fun k => (net.conn k).cut then
        some (net.setTask r (some { t with stage := .failing }))
      else none

/-- The spawn is refused, or its answer has not come in time. -/
def giveUp (net : Net) (r : ReplyId) : Option Net :=
  match net.tasks r with
  | none => none
  | some t =>
      if t.stage = .waiting ∧ t.answer ≠ some true then
        some (net.setTask r (some { t with stage := .failing }))
      else none

/-- A failed spawn takes its session off the link again. -/
def cleanUp (net : Net) (r : ReplyId) : Option Net :=
  match net.tasks r with
  | none => none
  | some t =>
      if t.stage = .failing then
        some { net.setTask r none with sessionHost := net.sessionHost.erase t.id }
      else none

/-- The spawn returns the ident it landed on. -/
def finish (net : Net) (r : ReplyId) : Option Net :=
  match net.tasks r with
  | none => none
  | some t =>
      if t.stage = .waiting ∧ t.answer = some true then some (net.setTask r none) else none

/-- `send_to` of a kill, to the devenv `host`. -/
def sendKill (net : Net) (host : String) (id : Uuid) : Option Net :=
  (net.connections host).map fun k => net.setConn k ((net.conn k).writeDown (.kill id))

/-! ## What each step does -/

@[simp, grind =] theorem conn_setConn (net : Net) (k j : ConnectionId) (l : Connection) :
    (net.setConn k l).conn j = if j = k then l else net.conn j := by
  simp [setConn, Function.update_apply]

@[simp, grind =] theorem tasks_setTask (net : Net) (r r' : ReplyId) (t : Option SpawnTask) :
    (net.setTask r t).tasks r' = if r' = r then t else net.tasks r' := by
  simp [setTask, Function.update_apply]

theorem lookup_insertAll (t : Table Uuid String) (key : String) (ids : List Uuid) (id : Uuid) :
    (ids.foldl (fun t id => t.insert id key) t)[id]? = if id ∈ ids then some key else t[id]? := by
  induction ids generalizing t with
  | nil => simp
  | cons id' ids ih =>
      rw [List.foldl_cons, ih, Table.lookup_insert]
      by_cases h : id' = id
      · simp [h]
      · simp [h, Ne.symm h]

theorem lookup_takeInventory (hosts : Table Uuid String) (key : String) (ids : List Uuid)
    (id : Uuid) :
    (takeInventory hosts key ids)[id]? =
      if id ∈ ids then some key else if hosts[id]? = some key then none else hosts[id]? := by
  rw [takeInventory, lookup_insertAll]
  by_cases hid : id ∈ ids
  · simp [hid]
  · rw [if_neg hid, if_neg hid, Std.ExtTreeMap.getElem?_filter']
    cases hosts[id]? with
    | none => simp
    | some key' => by_cases hkey : key' = key <;> simp [hkey, hid]

@[simp] theorem containers_dropServing (net : Net) (c : Container) (nUp : Nat) :
    (net.dropServing c nUp).containers = net.containers := by
  unfold dropServing
  split <;> rfl

@[simp] theorem currentIdent_dropServing (net : Net) (c : Container) (nUp : Nat) :
    (net.dropServing c nUp).currentIdent = net.currentIdent := by
  unfold dropServing
  split <;> rfl

theorem left_dropServing (net : Net) {c : Container} {k : ConnectionId} (hk : c.serving = some k)
    (nUp : Nat) : ((net.dropServing c nUp).conn k).left = true := by
  simp [dropServing, hk]

section Inversion

variable {net net' : Net} {name : String} {k : ConnectionId} {r : ReplyId}
  {id : Uuid} {code : Option Int} {p : Pump} {nUp nDown : Nat} {starts : Bool}

theorem dial_some (h : net.dial name = some net') :
    ∃ c, net.containers[name]? = some c ∧ c.running = true ∧
      (∀ k, c.serving = some k → (net.conn k).left = true) ∧
      net' = (({ net with dialled := net.dialled + 1 }.setConn net.dialled
        { server := name, up := [.hello c.imageId c.sessions.keys], down := [], cut := false,
          left := false, ident := none, closed := false }).setContainer name
        { c with
          pumps := c.pumps ++
            c.sessions.toList.map fun (entry : Uuid × Shell) =>
              Pump.mk entry.1 net.dialled entry.2.exit
          serving := some net.dialled }) := by
  unfold dial at h
  grind

theorem cut_some (h : net.cut k nUp nDown = some net') :
    (net.conn k).cut = false ∧ net' = net.setConn k { net.conn k with
      cut := true, up := (net.conn k).up.take nUp, down := (net.conn k).down.take nDown } := by
  unfold cut at h
  grind

theorem leave_some (h : net.leave name = some net') :
    ∃ c k, net.containers[name]? = some c ∧ c.serving = some k ∧ (net.conn k).cut = true ∧
      (net.conn k).left = false ∧
      net' = net.setConn k { net.conn k with left := true, down := [] } := by
  unfold leave at h
  grind

theorem receive_some (h : net.receive name starts = some net') :
    ∃ c k, net.containers[name]? = some c ∧ c.serving = some k ∧
      ((∃ reply id rest, (net.conn k).down = .spawn reply id :: rest ∧
          net' = (net.setConn k { net.conn k with down := rest }).handleSpawn name c k reply id
            starts) ∨
        ∃ id rest, (net.conn k).down = .kill id :: rest ∧
          (net' = net.setConn k { net.conn k with down := rest } ∨
            id ∈ c.sessions ∧ net' = (net.setConn k { net.conn k with down := rest }).setContainer
              name { c with killing := id :: c.killing })) := by
  unfold receive at h
  grind

theorem exit_some (h : net.exit name id code = some net') :
    ∃ c, net.containers[name]? = some c ∧ c.sessions[id]? = some .running ∧
      net' = net.setContainer name { c with
        sessions := c.sessions.insert id (.exited code)
        pumps := c.pumps.map fun p =>
          if p.id = id ∧ p.exit = none then { p with exit := some code } else p
        killing := c.killing.filter (· ≠ id) } := by
  unfold exit at h
  grind

theorem report_some (h : net.report name p = some net') :
    ∃ c code, net.containers[name]? = some c ∧ p.exit = some code ∧ p ∈ c.pumps ∧
      net' = (net.setConn p.connection
        ((net.conn p.connection).writeUp (.exited p.id code))).setContainer name
          { c with pumps := c.pumps.erase p, removing := p.id :: c.removing } := by
  unfold report at h
  grind

theorem forget_some (h : net.forget name id = some net') :
    ∃ c, net.containers[name]? = some c ∧ id ∈ c.removing ∧
      net' = net.setContainer name
        { c with sessions := c.sessions.erase id, removing := c.removing.erase id } := by
  unfold forget at h
  grind

theorem stopPump_some (h : net.stopPump name p = some net') :
    ∃ c, net.containers[name]? = some c ∧ p ∈ c.pumps ∧ (net.conn p.connection).cut = true ∧
      net' = net.setContainer name { c with pumps := c.pumps.erase p } := by
  unfold stopPump at h
  grind

theorem stop_some (h : net.stop name nUp = some net') :
    ∃ c, net.containers[name]? = some c ∧ c.running = true ∧
      net' = (net.dropServing c nUp).setContainer name { c with
        running := false, sessions := ∅, pumps := [], removing := [], killing := [] } := by
  unfold stop at h
  grind

theorem start_some (h : net.start name = some net') :
    ∃ c, net.containers[name]? = some c ∧ c.running = false ∧
      net' = net.setContainer name { c with running := true } := by
  unfold start at h
  grind

theorem handle_some (h : net.handle k = some net') :
    ∃ frame rest, (net.conn k).up = frame :: rest ∧ (net.conn k).closed = false ∧
      net' = (net.setConn k { net.conn k with up := rest }).handleFrame k frame := by
  unfold handle at h
  grind

theorem hangUp_some (h : net.hangUp k = some net') :
    (net.conn k).cut = true ∧ (net.conn k).up = [] ∧ (net.conn k).closed = false ∧
      (((net.conn k).ident = none ∧ net' = net.setConn k { net.conn k with closed := true }) ∨
        ∃ key, (net.conn k).ident = some key ∧
          net' = ({ net.setConn k { net.conn k with closed := true } with
            connections := if net.connections key = some k then
              Function.update net.connections key none else net.connections }).failPendingFor
                key) := by
  simp only [hangUp] at h
  split at h
  case isFalse => cases h
  case isTrue hover =>
    simp only [Bool.and_eq_true, Bool.not_eq_true', List.isEmpty_iff] at hover
    refine ⟨hover.1.1, hover.2, hover.1.2, ?_⟩
    split at h
    · rename_i hident
      exact .inl ⟨hident, (Option.some.inj h).symm⟩
    · rename_i key hident
      exact .inr ⟨key, hident, (Option.some.inj h).symm⟩

theorem register_some (h : net.register id = some net') :
    net.isConnected net.currentIdent = true ∧
      net' = { net with
        sessionHost := net.sessionHost.insert id net.currentIdent
        tasks := Function.update net.tasks net.replies
          (some ⟨id, net.currentIdent, .sending, none⟩)
        replies := net.replies + 1 } := by
  unfold register at h
  grind

theorem send_some (h : net.send r = some net') :
    ∃ t, net.tasks r = some t ∧ t.stage = .sending ∧
      ((net.connections t.target = none ∧
          net' = net.setTask r (some { t with stage := .failing })) ∨
        ∃ k, net.connections t.target = some k ∧
          net' = (net.setTask r (some { t with stage := .waiting })).setConn k
            ((net.conn k).writeDown (.spawn r t.id))) := by
  unfold send at h
  grind

theorem sendFails_some (h : net.sendFails r = some net') :
    ∃ t k, net.tasks r = some t ∧ t.stage = .sending ∧ net.connections t.target = some k ∧
      (net.conn k).cut = true ∧ net' = net.setTask r (some { t with stage := .failing }) := by
  unfold sendFails at h
  split at h
  · cases h
  · rename_i t ht
    cases hroute : net.connections t.target <;> grind

theorem giveUp_some (h : net.giveUp r = some net') :
    ∃ t, net.tasks r = some t ∧ t.stage = .waiting ∧ t.answer ≠ some true ∧
      net' = net.setTask r (some { t with stage := .failing }) := by
  unfold giveUp at h
  grind

theorem cleanUp_some (h : net.cleanUp r = some net') :
    ∃ t, net.tasks r = some t ∧ t.stage = .failing ∧
      net' = { net.setTask r none with sessionHost := net.sessionHost.erase t.id } := by
  unfold cleanUp at h
  grind

theorem finish_some (h : net.finish r = some net') :
    ∃ t, net.tasks r = some t ∧ t.stage = .waiting ∧ t.answer = some true ∧
      net' = net.setTask r none := by
  unfold finish at h
  grind

theorem sendKill_some {host : String} (h : net.sendKill host id = some net') :
    ∃ k, net.connections host = some k ∧
      net' = net.setConn k ((net.conn k).writeDown (.kill id)) := by
  obtain ⟨k, hk, rfl⟩ := Option.map_eq_some_iff.mp h
  exact ⟨k, hk, rfl⟩

end Inversion

end Net

/-- The steps of the servers, the containers, the connections and the link. -/
inductive Action
  | dial (name : String)
  | cut (k : ConnectionId) (nUp nDown : Nat)
  | leave (name : String)
  | receive (name : String) (starts : Bool)
  | exit (name : String) (id : Uuid) (code : Option Int)
  | report (name : String) (p : Pump)
  | forget (name : String) (id : Uuid)
  | stopPump (name : String) (p : Pump)
  | stop (name : String) (nUp : Nat)
  | start (name : String)
  | handle (k : ConnectionId)
  | hangUp (k : ConnectionId)
  | register (id : Uuid)
  | send (r : ReplyId)
  | sendFails (r : ReplyId)
  | giveUp (r : ReplyId)
  | cleanUp (r : ReplyId)
  | finish (r : ReplyId)
  | sendKill (host : String) (id : Uuid)
  deriving DecidableEq, Repr

def Net.step (net : Net) : Action → Option Net
  | .dial name => net.dial name
  | .cut k nUp nDown => net.cut k nUp nDown
  | .leave name => net.leave name
  | .receive name starts => net.receive name starts
  | .exit name id code => net.exit name id code
  | .report name p => net.report name p
  | .forget name id => net.forget name id
  | .stopPump name p => net.stopPump name p
  | .stop name nUp => net.stop name nUp
  | .start name => net.start name
  | .handle k => net.handle k
  | .hangUp k => net.hangUp k
  | .register id => net.register id
  | .send r => net.send r
  | .sendFails r => net.sendFails r
  | .giveUp r => net.giveUp r
  | .cleanUp r => net.cleanUp r
  | .finish r => net.finish r
  | .sendKill host id => net.sendKill host id

/-- The containers are there under their labels, and the current ident is the same. -/
def Net.SameLabels (net net' : Net) : Prop :=
  net'.currentIdent = net.currentIdent ∧
  ∀ (name : String) c, net.containers[name]? = some c →
    ∃ c', net'.containers[name]? = some c' ∧ c'.imageId = c.imageId

theorem Net.SameLabels.of_eq {net net' : Net} (hcs : net'.containers = net.containers)
    (hcur : net'.currentIdent = net.currentIdent) : net.SameLabels net' :=
  ⟨hcur, fun _ c hc => ⟨c, hcs ▸ hc, rfl⟩⟩

theorem Net.SameLabels.setContainer {net net' : Net} {name : String} {c c' : Container}
    (hcs : net'.containers = net.containers) (hcur : net'.currentIdent = net.currentIdent)
    (hc : net.containers[name]? = some c) (hlabel : c'.imageId = c.imageId) :
    net.SameLabels (net'.setContainer name c') := by
  refine ⟨hcur, fun name' c₁ hc₁ => ?_⟩
  simp only [Net.setContainer, hcs, Table.lookup_insert]
  by_cases hname : name = name'
  · subst hname
    obtain rfl : c = c₁ := Option.some.inj (hc.symm.trans hc₁)
    exact ⟨c', by simp, hlabel⟩
  · exact ⟨c₁, by simp [hname, hc₁], rfl⟩

/-- No step takes a container away or relabels it, and the current ident is the launcher's. -/
theorem Net.step_labels {net net' : Net} {a : Action} (h : net.step a = some net') :
    net.SameLabels net' := by
  cases a with
  | dial name =>
      obtain ⟨c, hc, -, -, rfl⟩ := Net.dial_some h
      exact .setContainer rfl rfl hc rfl
  | cut k nUp nDown =>
      obtain ⟨-, rfl⟩ := Net.cut_some h
      exact .of_eq rfl rfl
  | leave name =>
      obtain ⟨c, k, -, -, -, -, rfl⟩ := Net.leave_some h
      exact .of_eq rfl rfl
  | receive name starts =>
      obtain ⟨c, k, hc, -, ⟨reply, id, rest, -, rfl⟩ | ⟨id, rest, -, rfl | ⟨-, rfl⟩⟩⟩ :=
        Net.receive_some h
      · unfold Net.handleSpawn
        split
        · exact .of_eq rfl rfl
        · exact .setContainer rfl rfl hc rfl
      · exact .of_eq rfl rfl
      · exact .setContainer rfl rfl hc rfl
  | exit name id code =>
      obtain ⟨c, hc, -, rfl⟩ := Net.exit_some h
      exact .setContainer rfl rfl hc rfl
  | report name p =>
      obtain ⟨c, code, hc, -, -, rfl⟩ := Net.report_some h
      exact .setContainer rfl rfl hc rfl
  | forget name id =>
      obtain ⟨c, hc, -, rfl⟩ := Net.forget_some h
      exact .setContainer rfl rfl hc rfl
  | stopPump name p =>
      obtain ⟨c, hc, -, -, rfl⟩ := Net.stopPump_some h
      exact .setContainer rfl rfl hc rfl
  | stop name nUp =>
      obtain ⟨c, hc, -, rfl⟩ := Net.stop_some h
      exact .setContainer (net.containers_dropServing c nUp) (net.currentIdent_dropServing c nUp)
        hc rfl
  | start name =>
      obtain ⟨c, hc, -, rfl⟩ := Net.start_some h
      exact .setContainer rfl rfl hc rfl
  | handle k =>
      obtain ⟨frame, rest, -, -, rfl⟩ := Net.handle_some h
      cases frame with
      | hello ident ids => exact .of_eq rfl rfl
      | spawnResult r ok =>
          simp only [Net.handleFrame]
          split
          · exact .of_eq rfl rfl
          · split <;> exact .of_eq rfl rfl
      | exited id code => exact .of_eq rfl rfl
  | hangUp k =>
      obtain ⟨-, -, -, ⟨-, rfl⟩ | ⟨key, -, rfl⟩⟩ := Net.hangUp_some h
      · exact .of_eq rfl rfl
      · exact .of_eq rfl rfl
  | register id =>
      obtain ⟨-, rfl⟩ := Net.register_some h
      exact .of_eq rfl rfl
  | send r =>
      obtain ⟨t, -, -, ⟨-, rfl⟩ | ⟨k, -, rfl⟩⟩ := Net.send_some h
      · exact .of_eq rfl rfl
      · exact .of_eq rfl rfl
  | sendFails r =>
      obtain ⟨t, k, -, -, -, -, rfl⟩ := Net.sendFails_some h
      exact .of_eq rfl rfl
  | giveUp r =>
      obtain ⟨t, -, -, -, rfl⟩ := Net.giveUp_some h
      exact .of_eq rfl rfl
  | cleanUp r =>
      obtain ⟨t, -, -, rfl⟩ := Net.cleanUp_some h
      exact .of_eq rfl rfl
  | finish r =>
      obtain ⟨t, -, -, -, rfl⟩ := Net.finish_some h
      exact .of_eq rfl rfl
  | sendKill host id =>
      obtain ⟨k, -, rfl⟩ := Net.sendKill_some h
      exact .of_eq rfl rfl
end Sulion.Devenv
