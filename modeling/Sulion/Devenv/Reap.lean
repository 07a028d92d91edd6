import Sulion.Devenv.Tracking
import Sulion.Rust.Text

set_option autoImplicit false

/-! # The container ensure loop

`ensure_container_loop` of `devenv/launcher.rs`: it resolves the toolset image, ensures its
container, publishes its ident once the devenv is connected, and makes a reap pass over the owned
containers. Every Docker command and every read of the link is a step of its own, and the steps
of the servers and the link come between them. A failed command ends the iteration.
-/

namespace Sulion.Devenv

open Transition

/-- `str::trim_start_matches`, given at least as many rounds as `s` has characters. -/
def trimStartMatches (start : List Char) : Nat → List Char → List Char
  | 0, s => s
  | rounds + 1, s =>
      if start.isPrefixOf s then trimStartMatches start rounds (s.drop start.length) else s

/-- `container_name_for`. -/
def containerNameFor (imageId : String) : String :=
  let short := (trimStartMatches "sha256:".toList imageId.length imageId.toList).take 12
  "sulion-devenv-" ++ String.ofList short

/-- What Docker answers for the ID of an image: a digest. -/
def IsImageId (s : String) : Prop := Rust.startsWith s "sha256:" = true

instance (s : String) : Decidable (IsImageId s) := inferInstanceAs (Decidable (_ = _))

/-- `should_reap`. -/
def shouldReap (running isCurrent connected : Bool) (hosted : Nat) : Bool :=
  if isCurrent then false
  else if !running then true
  else connected && hosted == 0

theorem shouldReap_eq_true {running isCurrent connected : Bool} {hosted : Nat}
    (h : shouldReap running isCurrent connected hosted = true) :
    isCurrent = false ∧ (running = false ∨ connected = true ∧ hosted = 0) := by
  unfold shouldReap at h
  split at h
  · cases h
  · rename_i hcurrent
    split at h
    · rename_i hrun
      exact ⟨by simpa using hcurrent, .inl (by simpa using hrun)⟩
    · exact ⟨by simpa using hcurrent, .inr (by simpa using h)⟩

/-- `ContainerState` of a container that is owned. -/
structure ContainerState where
  running : Bool
  imageId : Option String
  deriving DecidableEq, Repr

def ContainerState.ident (state : ContainerState) : String := state.imageId.getD defaultIdent

/-- Where the loop is; from `ensuring` on it has the image's ID. -/
inductive Phase
  | asleep
  | ensuring (image : String)
  | replacing (image : String)
  | creating (image : String)
  | waiting (image : String)
  | publishing (image : String)
  | listing (image : String)
  | reaping (image : String) (names : List String)
  /-- The state of the container has been read. -/
  | inspected (image name : String) (names : List String) (state : ContainerState)
  /-- So has its connection. -/
  | checked (image name : String) (names : List String) (state : ContainerState) (connected : Bool)
  /-- `docker rm -f` comes next. -/
  | removing (image name : String) (names : List String)
  deriving DecidableEq, Repr

structure Loop where
  net : Net
  phase : Phase
  publishedIdent : Option String

inductive LoopAction
  /-- A step of the servers, the containers or the link. -/
  | net (a : Action)
  | resolve (image : String)
  | inspectCurrent
  | replace (nUp : Nat)
  | create
  | sawConnection
  | connectTimeout
  | publish
  /-- `docker ps` has answered with these names. -/
  | list (names : List String)
  | inspect
  | check
  | decide
  | remove (nUp : Nat)
  /-- A command has failed. -/
  | fail
  deriving DecidableEq, Repr

/-- `docker rm -f`. -/
def Net.remove (net : Net) (name : String) (nUp : Nat) : Net :=
  match net.containers[name]? with
  | none => net
  | some c => { net.dropServing c nUp with containers := net.containers.erase name }

/-- What `docker run` creates. -/
def Container.created (image : String) : Container :=
  { owned := true, imageId := some image, running := true, sessions := ∅, pumps := [],
    removing := [], killing := [], serving := none }

namespace Loop

/-- The container of the image is there; it is published once it is connected. -/
def ensured (s : Loop) (image : String) : Loop :=
  { s with phase := if s.publishedIdent = some image then .listing image else .waiting image }

def step (s : Loop) : LoopAction → Option Loop
  | .net a => (s.net.step a).map fun net => { s with net := net }
  | .resolve image =>
      if s.phase = .asleep ∧ IsImageId image then some { s with phase := .ensuring image } else none
  | .inspectCurrent =>
      match s.phase with
      | .ensuring image =>
          match s.net.containers[containerNameFor image]? with
          | none => some { s with phase := .creating image }
          | some c =>
              -- a container of this name that is not owned is not adopted
              if !c.owned then some { s with phase := .asleep }
              else if c.running then some (s.ensured image)
              else some { s with phase := .replacing image }
      | _ => none
  | .replace nUp =>
      match s.phase with
      | .replacing image =>
          some { s with net := s.net.remove (containerNameFor image) nUp, phase := .creating image }
      | _ => none
  | .create =>
      match s.phase with
      | .creating image =>
          match s.net.containers[containerNameFor image]? with
          | none =>
              let net := s.net.setContainer (containerNameFor image) (.created image)
              some ({ s with net := net }.ensured image)
          | some _ => some { s with phase := .asleep }
      | _ => none
  | .sawConnection =>
      match s.phase with
      | .waiting image =>
          if s.net.isConnected image then some { s with phase := .publishing image } else none
      | _ => none
  | .connectTimeout =>
      match s.phase with
      | .waiting image =>
          if s.net.isConnected image then none else some { s with phase := .listing image }
      | _ => none
  | .publish =>
      match s.phase with
      | .publishing image =>
          some { net := { s.net with currentIdent := image }, phase := .listing image,
                 publishedIdent := some image }
      | _ => none
  | .list names =>
      match s.phase with
      | .listing image => some { s with phase := .reaping image names }
      | _ => none
  | .inspect =>
      match s.phase with
      | .reaping _ [] => some { s with phase := .asleep }
      | .reaping image (name :: names) =>
          match s.net.containers[name]? with
          | none => some { s with phase := .reaping image names }
          | some c =>
              if c.owned then
                some { s with phase := .inspected image name names ⟨c.running, c.imageId⟩ }
              else some { s with phase := .reaping image names }
      | _ => none
  | .check =>
      match s.phase with
      | .inspected image name names state =>
          some { s with
            phase := .checked image name names state (s.net.isConnected state.ident) }
      | _ => none
  | .decide =>
      match s.phase with
      | .checked image name names state connected =>
          let hosted := s.net.hostedSessions state.ident
          if shouldReap state.running (state.imageId == some image) connected hosted then
            some { s with phase := .removing image name names }
          else some { s with phase := .reaping image names }
      | _ => none
  | .remove nUp =>
      match s.phase with
      | .removing image name names =>
          some { s with net := s.net.remove name nUp, phase := .reaping image names }
      | _ => none
  | .fail =>
      match s.phase with
      | .asleep | .waiting _ | .publishing _ | .inspected .. | .checked .. => none
      | _ => some { s with phase := .asleep }

end Loop

/-! ## The property -/

/-- A running container that hosts a live shell, or that new sessions are routed to. -/
def InUse (net : Net) (name : String) : Prop :=
  ∃ c, net.containers[name]? = some c ∧ c.running = true ∧
    ((∃ id : Uuid, c.sessions[id]? = some .running) ∨ c.ident = net.currentIdent)

/-- The next command of the loop is a `docker rm -f` of the reap pass that hits a container in
use. -/
def ReapsInUse (s : Loop) : Prop :=
  ∃ image name names, s.phase = .removing image name names ∧ InUse s.net name

/-- A node process has started. -/
structure Started (s : Loop) : Prop where
  fresh : Fresh s.net
  phase : s.phase = .asleep
  publishedIdent : s.publishedIdent = none

/-! ## The condition -/

/-- A reap pass looks at the container of the ident new sessions are routed to only under that
ident, and the steps of the link and the servers are in order. -/
def Settled (s : Loop) : LoopAction → Prop
  | .net a => Orderly s.net a
  | .inspect =>
      match s.phase with
      | .reaping image (name :: _) =>
          ∀ c ∈ s.net.containers[name]?, c.ident = s.net.currentIdent → image = s.net.currentIdent
      | _ => True
  | _ => True

instance (s : Loop) (a : LoopAction) : Decidable (Settled s a) := by
  unfold Settled
  split <;> try infer_instance
  split <;> infer_instance

/-! ## The updates of the loop -/

section Updates

variable {g : Ghost} {net : Net} {name image : String} {nUp : Nat}

theorem of_erase {other : String} {c : Container}
    (h : (net.containers.erase name)[other]? = some c) :
    other ≠ name ∧ net.containers[other]? = some c := by
  rw [Std.ExtTreeMap.getElem?_erase] at h
  split at h
  · cases h
  · rename_i hne
    exact ⟨fun heq => hne (Std.LawfulEqOrd.compare_eq_iff_eq.mpr heq.symm), h⟩

/-- A container without a connection is taken away. -/
theorem Tracked.erase (h : Tracked g net)
    (hleft : ∀ k, (net.conn k).left = false → (net.conn k).server ≠ name) :
    Tracked g { net with containers := net.containers.erase name } := by
  have hover : ∀ id, Over g.place net id →
      Over g.place { net with containers := net.containers.erase name } id := fun id hid =>
    hid.of_running fun other c hc hrun => ⟨c, (of_erase hc).2, hrun⟩
  obtain ⟨hw, hp, hk, hq⟩ := h
  refine ⟨?wired, ?placed, ?known, ?quiet⟩
  case wired =>
    refine ⟨hw.dialled, ?serving, ?live, hw.left, hw.silent, ?ident, ?hello, hw.greeted, hw.once,
      hw.route, ?stopped⟩
    case serving => exact fun other c k hc => hw.serving other c k (of_erase hc).2
    case live =>
      intro k hlive
      obtain ⟨c, hc, hrun, hserving⟩ := hw.live k hlive
      have hkept : (net.containers.erase name)[(net.conn k).server]? = some c := by
        rw [Std.ExtTreeMap.getElem?_erase, if_neg]
        · exact hc
        · exact fun heq => hleft k hlive (Std.LawfulEqOrd.compare_eq_iff_eq.mp heq).symm
      exact ⟨c, hkept, hrun, hserving⟩
    case ident => exact fun other c k key hc => hw.ident other c k key (of_erase hc).2
    case hello => exact fun other c k i ids hc => hw.hello other c k i ids (of_erase hc).2
    case stopped => exact fun other c hc => hw.stopped other c (of_erase hc).2
  case placed =>
    refine ⟨?hosted, hp.flying, hp.flyingOnce, hp.unsent, hp.tasks, hp.named, ?reported, ?ended,
      ?removed⟩
    case hosted => exact fun other c id sh hc => hp.hosted other c id sh (of_erase hc).2
    case reported => exact fun k id code hmem => hover id (hp.reported k id code hmem)
    case ended =>
      exact fun other c p hc hmem hexit =>
        hover p.id (hp.ended other c p (of_erase hc).2 hmem hexit)
    case removed =>
      exact fun other c id hc hmem => hover id (hp.removed other c id (of_erase hc).2 hmem)
  case known =>
    refine ⟨hk.kept, ?listed, hk.connected, ?hosted, hk.flying⟩
    case listed => exact fun other c k i ids hc => hk.listed other c k i ids (of_erase hc).2
    case hosted => exact fun other c id hc => hk.hosted other c id (of_erase hc).2
  case quiet =>
    refine ⟨?hosted, hq.flying, hq.unsent, ?ident⟩
    case hosted => exact fun other c id hquiet hc => hq.hosted other c id hquiet (of_erase hc).2
    case ident => exact fun other c hquiet hc => hq.ident other c hquiet (of_erase hc).2

theorem Tracked.remove (h : Tracked g net) : Tracked g (net.remove name nUp) := by
  unfold Net.remove
  split
  · exact h
  · rename_i c hc
    have hleft : ∀ k, ((net.dropServing c nUp).conn k).left = false →
        ((net.dropServing c nUp).conn k).server ≠ name := by
      rintro k hleft rfl
      obtain ⟨c', hc', -, hk⟩ := (h.dropServing (c := c) nUp).wired.live k hleft
      obtain rfl : c = c' := Option.some.inj (hc.symm.trans (by simpa using hc'))
      rw [net.left_dropServing hk nUp] at hleft
      cases hleft
    have hdropped := (h.dropServing (c := c) nUp).erase hleft
    rw [net.containers_dropServing c nUp] at hdropped
    exact hdropped

/-- A container that hosts nothing comes in place of none. -/
theorem Tracked.create (h : Tracked g net) (hfree : net.containers[name]? = none) :
    Tracked { g with quiet := fun _ => False } (net.setContainer name (.created image)) := by
  have hempty : ∀ id : Uuid, (Container.created image).sessions[id]? = none := fun id =>
    Std.ExtTreeMap.getElem?_empty
  have hover : ∀ id, Over g.place net id →
      Over g.place (net.setContainer name (.created image)) id := by
    refine fun id hid => hid.of_running fun other c hc hrun => ?_
    rcases Net.of_setContainer hc with ⟨-, rfl⟩ | ⟨-, hold⟩
    · rw [hempty] at hrun
      cases hrun
    · exact ⟨c, hold, hrun⟩
  obtain ⟨hw, hp, hk, -⟩ := h
  refine ⟨?wired, ?placed, ?known, ?quiet⟩
  case wired =>
    refine ⟨hw.dialled, ?serving, ?live, hw.left, hw.silent, ?ident, ?hello, hw.greeted, hw.once,
      hw.route, ?stopped⟩
    case serving =>
      intro other c k hc hserving
      rcases Net.of_setContainer hc with ⟨-, rfl⟩ | ⟨-, hold⟩
      · cases hserving
      · exact hw.serving other c k hold hserving
    case live =>
      intro k hlive
      obtain ⟨c, hc, hlive⟩ := hw.live k hlive
      have hne : name ≠ (net.conn k).server := by
        rintro rfl
        rw [hfree] at hc
        cases hc
      exact ⟨c, (Table.lookup_insert_ne _ _ hne).trans hc, hlive⟩
    case ident =>
      intro other c k key hc hserving
      rcases Net.of_setContainer hc with ⟨-, rfl⟩ | ⟨-, hold⟩
      · cases hserving
      · exact hw.ident other c k key hold hserving
    case hello =>
      intro other c k i ids hc hserving
      rcases Net.of_setContainer hc with ⟨-, rfl⟩ | ⟨-, hold⟩
      · cases hserving
      · exact hw.hello other c k i ids hold hserving
    case stopped =>
      intro other c hc hstopped
      rcases Net.of_setContainer hc with ⟨-, rfl⟩ | ⟨-, hold⟩
      · cases hstopped
      · exact hw.stopped other c hold hstopped
  case placed =>
    refine ⟨?hosted, hp.flying, hp.flyingOnce, hp.unsent, hp.tasks, hp.named, ?reported, ?ended,
      ?removed⟩
    case hosted =>
      intro other c id sh hc hsh
      rcases Net.of_setContainer hc with ⟨-, rfl⟩ | ⟨-, hold⟩
      · rw [hempty] at hsh
        cases hsh
      · exact hp.hosted other c id sh hold hsh
    case reported => exact fun k id code hmem => hover id (hp.reported k id code hmem)
    case ended =>
      intro other c p hc hmem hexit
      rcases Net.of_setContainer hc with ⟨-, rfl⟩ | ⟨-, hold⟩
      · exact absurd hmem List.not_mem_nil
      · exact hover p.id (hp.ended other c p hold hmem hexit)
    case removed =>
      intro other c id hc hmem
      rcases Net.of_setContainer hc with ⟨-, rfl⟩ | ⟨-, hold⟩
      · exact absurd hmem List.not_mem_nil
      · exact hover id (hp.removed other c id hold hmem)
  case known =>
    refine ⟨hk.kept, ?listed, hk.connected, ?hosted, hk.flying⟩
    case listed =>
      intro other c k i ids hc hserving
      rcases Net.of_setContainer hc with ⟨-, rfl⟩ | ⟨-, hold⟩
      · cases hserving
      · exact hk.listed other c k i ids hold hserving
    case hosted =>
      intro other c id hc hseen hrun
      rcases Net.of_setContainer hc with ⟨-, rfl⟩ | ⟨-, hold⟩
      · rw [hempty] at hrun
        cases hrun
      · exact hk.hosted other c id hold hseen hrun
  case quiet => exact quiet_none _

theorem Tracked.publish (h : Tracked g net) :
    Tracked { g with quiet := fun _ => False } { net with currentIdent := image } := by
  obtain ⟨hw, hp, hk, -⟩ := h
  exact ⟨⟨hw.1, hw.2, hw.3, hw.4, hw.5, hw.6, hw.7, hw.8, hw.9, hw.10, hw.11⟩,
    ⟨hp.1, hp.2, hp.3, hp.4, hp.5, hp.6, hp.7, hp.8, hp.9⟩, ⟨hk.1, hk.2, hk.3, hk.4, hk.5⟩,
    quiet_none _⟩

/-- A container becomes quiet: it runs no shell, no frame and no spawn can bring it one, and new
sessions are routed elsewhere. -/
theorem Tracked.quieten (h : Tracked g net)
    (hosted : ∀ c (id : Uuid), net.containers[name]? = some c → c.sessions[id]? ≠ some .running)
    (flying : ∀ k r id, (net.conn k).server = name → .spawn r id ∉ (net.conn k).down)
    (unsent : ∀ k r t, (net.conn k).server = name → (net.conn k).left = false →
      net.tasks r = some t → t.stage = .sending → (net.conn k).ident ≠ some t.target)
    (ident : ∀ c, net.containers[name]? = some c → c.ident ≠ net.currentIdent) :
    Tracked { g with quiet := fun name' => name' = name } net :=
  ⟨h.wired, h.placed, h.known, by
    constructor
    · rintro _ c id rfl hc
      exact hosted c id hc
    · exact fun k r id hname => flying k r id hname
    · exact fun k r t hname => unsent k r t hname
    · rintro _ c rfl hc
      exact ident c hc⟩

/-- A container that does not run is quiet. -/
theorem Tracked.quieten_stopped {c : Container} (h : Tracked g net)
    (hc : net.containers[name]? = some c) (hrun : c.running = false)
    (hident : c.ident ≠ net.currentIdent) :
    Tracked { g with quiet := fun name' => name' = name } net := by
  have hone : ∀ c', net.containers[name]? = some c' → c' = c := fun c' hc' =>
    Option.some.inj (hc'.symm.trans hc)
  have hleft : ∀ k, (net.conn k).server = name → (net.conn k).left = true := by
    rintro k rfl
    by_contra hleft
    obtain ⟨c', hc', hrun', -⟩ := h.wired.live k (by simpa using hleft)
    rw [hone c' hc', hrun] at hrun'
    cases hrun'
  apply h.quieten
  · intro c' id hc'
    rw [hone c' hc', (h.wired.stopped name c hc hrun).1]
    simp
  · intro k r id hname
    simp [(h.wired.left k (hleft k hname)).2]
  · intro k r t hname hlive
    rw [hleft k hname] at hlive
    cases hlive
  · intro c' hc'
    rwa [hone c' hc']

/-- A container whose ident has been connected and that the link has no session for is quiet. -/
theorem Tracked.quieten_empty {c : Container} (h : Tracked g net)
    (hc : net.containers[name]? = some c) (hseen : g.seen c.ident)
    (hhosted : net.hostedSessions c.ident = 0) (hident : c.ident ≠ net.currentIdent) :
    Tracked { g with quiet := fun name' => name' = name } net := by
  have hone : ∀ c', net.containers[name]? = some c' → c' = c := fun c' hc' =>
    Option.some.inj (hc'.symm.trans hc)
  have hempty : ∀ id : Uuid, net.sessionHost[id]? ≠ some c.ident := by
    intro id hid
    have hnone := List.eq_nil_of_length_eq_zero hhosted
    have hmem := Std.ExtTreeMap.mem_toList_iff_getElem?_eq_some.mpr hid
    have := List.filter_eq_nil_iff.mp hnone _ hmem
    simp at this
  have hlive : ∀ k key, (net.conn k).server = name → (net.conn k).left = false →
      (net.conn k).ident = some key → key = c.ident := by
    rintro k key rfl hleft hkey
    obtain ⟨c', hc', -, hserving⟩ := h.wired.live k hleft
    rw [hone c' hc'] at hserving
    exact h.wired.ident _ c k key hc hserving hkey
  apply h.quieten
  · intro c' id hc' hrun
    rw [hone c' hc'] at hrun
    exact hempty id (h.known.hosted name c id hc hseen hrun)
  · intro k r id hname hframe
    have hleft : (net.conn k).left = false := by
      by_contra hleft
      simp [(h.wired.left k (by simpa using hleft)).2] at hframe
    cases hkey : (net.conn k).ident with
    | none => simp [h.wired.silent k hkey] at hframe
    | some key =>
        obtain rfl := hlive k key hname hleft hkey
        exact hempty id (h.known.flying k r id _ hframe hkey hseen)
  · intro k r t hname hleft ht hst hkey
    have htarget := hlive k t.target hname hleft hkey
    exact hempty t.id (htarget ▸ h.known.kept r t ht hst)
  · intro c' hc'
    rwa [hone c' hc']

end Updates

/-! ## The run -/

/-- The image an iteration is about. -/
def Phase.image : Phase → Option String
  | .asleep => none
  | .ensuring image | .replacing image | .creating image | .waiting image | .publishing image
  | .listing image | .reaping image _ | .inspected image _ _ _ | .checked image _ _ _ _
  | .removing image _ _ => some image

/-- What has been read of container `name` still tells whether the pass of `image` may reap it. -/
structure Judged (g : Ghost) (net : Net) (image name : String) (state : ContainerState) : Prop where
  label : ∃ c, net.containers[name]? = some c ∧ c.imageId = state.imageId
  current : state.imageId ≠ some image → state.ident ≠ net.currentIdent
  stopped : state.imageId ≠ some image → state.running = false → g.quiet name

/-- What each phase of the loop keeps. -/
def Phase.Holds (g : Ghost) (net : Net) : Phase → Prop
  | .inspected image name _ state => Judged g net image name state
  | .checked image name _ state connected =>
      Judged g net image name state ∧ (connected = true → g.seen state.ident)
  | .removing _ name _ => g.quiet name
  | _ => True

def Loop.Safe (s : Loop) : Prop :=
  (∀ image ∈ s.phase.image, IsImageId image) ∧ ∃ g, Tracked g s.net ∧ s.phase.Holds g s.net

/-- A step of the link or the servers. -/
theorem Phase.Holds.net {g g' : Ghost} {net net' : Net} {phase : Phase}
    (h : phase.Holds g net) (hlabels : net.SameLabels net')
    (hseen : ∀ i, g.seen i → g'.seen i) (hquiet : g'.quiet = g.quiet) :
    phase.Holds g' net' := by
  have judged : ∀ {image name state}, Judged g net image name state →
      Judged g' net' image name state := by
    rintro image name state ⟨⟨c, hc, hlabel⟩, hcurrent, hstopped⟩
    obtain ⟨c', hc', hlabel'⟩ := hlabels.2 name c hc
    exact ⟨⟨c', hc', hlabel'.trans hlabel⟩, hlabels.1 ▸ hcurrent, hquiet ▸ hstopped⟩
  cases phase with
  | inspected image name names state => exact judged h
  | checked image name names state connected => exact ⟨judged h.1, fun hc => hseen _ (h.2 hc)⟩
  | removing image name names =>
      show g'.quiet name
      rw [hquiet]
      exact h
  | _ => trivial

theorem IsImageId.ne_default {image : String} (h : IsImageId image) : image ≠ defaultIdent := by
  rintro rfl
  revert h
  decide

theorem Loop.safe_ensured {s : Loop} {image : String} {g : Ghost} (hid : IsImageId image)
    (h : Tracked g s.net) : (s.ensured image).Safe := by
  unfold Loop.ensured
  refine ⟨?_, g, h, ?_⟩
  · dsimp only
    split <;> simpa [Phase.image] using hid
  · dsimp only
    split <;> trivial

theorem Loop.safe_step : Preserved Loop.step Settled Loop.Safe := by
  rintro s a s' ⟨himage, g, htracked, hholds⟩ hok hstep
  have easy : ∀ {t : Loop}, (∀ image ∈ t.phase.image, IsImageId image) → Tracked g t.net →
      t.phase.Holds g t.net → t.Safe := fun h₁ h₂ h₃ => ⟨h₁, g, h₂, h₃⟩
  cases a with
  | net a =>
      obtain ⟨net, hnet, rfl⟩ := Option.map_eq_some_iff.mp hstep
      obtain ⟨g', hseen, hquiet, htracked'⟩ := htracked.step hok hnet
      exact ⟨himage, g', htracked', hholds.net (Net.step_labels hnet) hseen hquiet⟩
  | resolve image =>
      simp only [step] at hstep
      split at hstep
      · rename_i h
        cases hstep
        exact easy (by simpa [Phase.image] using h.2) htracked trivial
      · cases hstep
  | inspectCurrent =>
      simp only [step] at hstep
      split at hstep
      case h_2 => cases hstep
      case h_1 image hphase =>
        have hid : IsImageId image := himage image (by simp [hphase, Phase.image])
        split at hstep
        · cases hstep
          exact easy (by simpa [Phase.image] using hid) htracked trivial
        · split at hstep
          · cases hstep
            exact easy (by simp [Phase.image]) htracked trivial
          · split at hstep
            · cases hstep
              exact safe_ensured hid htracked
            · cases hstep
              exact easy (by simpa [Phase.image] using hid) htracked trivial
  | replace nUp =>
      simp only [step] at hstep
      split at hstep
      case h_2 => cases hstep
      case h_1 image hphase =>
        cases hstep
        exact easy (by simpa [Phase.image, hphase] using himage) htracked.remove trivial
  | create =>
      simp only [step] at hstep
      split at hstep
      case h_2 => cases hstep
      case h_1 image hphase =>
        have hid : IsImageId image := himage image (by simp [hphase, Phase.image])
        split at hstep
        · rename_i hfree
          cases hstep
          exact safe_ensured hid (htracked.create hfree)
        · cases hstep
          exact easy (by simp [Phase.image]) htracked trivial
  | sawConnection =>
      simp only [step] at hstep
      split at hstep
      case h_2 => cases hstep
      case h_1 image hphase =>
        split at hstep
        · cases hstep
          exact easy (by simpa [Phase.image, hphase] using himage) htracked trivial
        · cases hstep
  | connectTimeout =>
      simp only [step] at hstep
      split at hstep
      case h_2 => cases hstep
      case h_1 image hphase =>
        split at hstep
        · cases hstep
        · cases hstep
          exact easy (by simpa [Phase.image, hphase] using himage) htracked trivial
  | publish =>
      simp only [step] at hstep
      split at hstep
      case h_2 => cases hstep
      case h_1 image hphase =>
        cases hstep
        exact ⟨by simpa [Phase.image, hphase] using himage, _, htracked.publish, trivial⟩
  | list names =>
      simp only [step] at hstep
      split at hstep
      case h_2 => cases hstep
      case h_1 image hphase =>
        cases hstep
        exact easy (by simpa [Phase.image, hphase] using himage) htracked trivial
  | inspect =>
      simp only [step] at hstep
      split at hstep
      case h_3 => cases hstep
      case h_1 image hphase =>
        cases hstep
        exact easy (by simp [Phase.image]) htracked trivial
      case h_2 image name names hphase =>
        have hid : IsImageId image := himage image (by simp [hphase, Phase.image])
        split at hstep
        · cases hstep
          exact easy (by simpa [Phase.image] using hid) htracked trivial
        · rename_i c hc
          split at hstep
          · cases hstep
            have hcurrent : c.imageId ≠ some image → c.ident ≠ s.net.currentIdent := by
              intro hother hident
              have himg : image = s.net.currentIdent := by
                simp only [Settled, hphase] at hok
                exact hok c hc hident
              rw [← himg, Container.ident] at hident
              cases hlabel : c.imageId with
              | none =>
                  rw [hlabel] at hident
                  exact hid.ne_default hident.symm
              | some label =>
                  rw [hlabel] at hident hother
                  exact hother (congrArg some hident)
            by_cases hquiet : c.imageId ≠ some image ∧ c.running = false
            · have h' := htracked.quieten_stopped hc hquiet.2 (hcurrent hquiet.1)
              exact ⟨by simpa [Phase.image] using hid, _, h', ⟨c, hc, rfl⟩, hcurrent,
                fun _ _ => rfl⟩
            · refine easy (by simpa [Phase.image] using hid) htracked ⟨⟨c, hc, rfl⟩, hcurrent, ?_⟩
              exact fun hother hrun => absurd ⟨hother, hrun⟩ hquiet
          · cases hstep
            exact easy (by simpa [Phase.image] using hid) htracked trivial
  | check =>
      simp only [step] at hstep
      split at hstep
      case h_2 => cases hstep
      case h_1 image name names state hphase =>
        cases hstep
        rw [hphase] at hholds
        refine easy (by simpa [Phase.image, hphase] using himage) htracked ⟨hholds, fun hc => ?_⟩
        obtain ⟨k, hk⟩ := Option.isSome_iff_exists.mp hc
        exact htracked.known.connected _ k hk
  | decide =>
      simp only [step] at hstep
      split at hstep
      case h_2 => cases hstep
      case h_1 image name names state connected hphase =>
        rw [hphase] at hholds
        split at hstep
        · rename_i hreap
          cases hstep
          obtain ⟨⟨⟨c, hc, hlabel⟩, hcurrent, hstopped⟩, hconnected⟩ := hholds
          have hident : c.ident = state.ident := by rw [Container.ident, hlabel]; rfl
          have himg : ∀ i ∈ (Phase.removing image name names).image, IsImageId i := by
            simpa [Phase.image, hphase] using himage
          obtain ⟨hother, hreap⟩ := shouldReap_eq_true hreap
          have hother : state.imageId ≠ some image := by simpa using hother
          obtain hrun | ⟨hconn, hnone⟩ := hreap
          · exact ⟨himg, g, htracked, hstopped hother hrun⟩
          · have h' := htracked.quieten_empty hc (hident ▸ hconnected hconn) (hident ▸ hnone)
              (hident ▸ hcurrent hother)
            exact ⟨himg, _, h', rfl⟩
        · cases hstep
          exact easy (by simpa [Phase.image, hphase] using himage) htracked trivial
  | remove nUp =>
      simp only [step] at hstep
      split at hstep
      case h_2 => cases hstep
      case h_1 image name names hphase =>
        cases hstep
        exact easy (by simpa [Phase.image, hphase] using himage) htracked.remove trivial
  | fail =>
      simp only [step] at hstep
      split at hstep
      all_goals first
        | cases hstep
          exact easy (by simp [Phase.image]) htracked trivial
        | cases hstep

/-- A container the loop is about to remove is not in use. -/
theorem Loop.Safe.spares {s : Loop} (h : s.Safe) : ¬ ReapsInUse s := by
  rintro ⟨image, name, names, hphase, c, hc, hrun, huse⟩
  obtain ⟨-, g, htracked, hholds⟩ := h
  rw [hphase] at hholds
  obtain ⟨id, hid⟩ | hident := huse
  · exact htracked.quiet.hosted name c id hholds hc hid
  · exact htracked.quiet.ident name c hholds hc hident

theorem Started.safe {s : Loop} (h : Started s) : s.Safe := by
  obtain ⟨place, htracked⟩ := h.fresh.tracked
  refine ⟨by simp [h.phase, Phase.image], _, htracked, ?_⟩
  rw [h.phase]
  trivial

/-- **Reaping spares what is in use.** -/
theorem reap_spares_containers_in_use {s t : Loop} (hs : Started s)
    (hrun : Run Loop.step Settled s t) : ¬ ReapsInUse t :=
  (hrun.invariant Loop.safe_step hs.safe).spares

/-! ## What goes wrong -/

section Runs

def imageA : String := "sha256:aaaaaaaaaaaaaaaa"

def imageB : String := "sha256:bbbbbbbbbbbbbbbb"

def containerA : String := containerNameFor imageA

def containerB : String := containerNameFor imageB

/-- A node process starts beside the container of `imageA`. -/
def besideA : Loop where
  net :=
    { containers := (∅ : Table String Container).insert containerA (.created imageA)
      conn := fun _ => .undialled
      dialled := 0
      connections := fun _ => none
      sessionHost := ∅
      currentIdent := defaultIdent
      tasks := fun _ => none
      replies := 0
      events := [] }
  phase := .asleep
  publishedIdent := none

/-- The devenv dials in and is published, and the pass finds nothing to reap. -/
def publishA : List LoopAction :=
  [.net (.dial containerA), .net (.handle 0), .resolve imageA, .inspectCurrent, .sawConnection,
    .publish, .list [containerA], .inspect, .check, .decide, .inspect]

/-- The toolset rolls to `imageB`, whose devenv does not dial in: its publication fails. -/
def rollUnpublished : List LoopAction :=
  [.resolve imageB, .inspectCurrent, .create, .connectTimeout, .list [containerA], .inspect, .check,
    .decide]

/-- The toolset rolls to `imageB`, which is published. -/
def rollPublished : List LoopAction :=
  [.resolve imageB, .inspectCurrent, .create, .net (.dial containerB), .net (.handle 1),
    .sawConnection, .publish, .list [containerA], .inspect, .check, .decide]

/-- A spawn is given up before its devenv has read the frame. -/
def spawnLate : List LoopAction :=
  [.net (.register 7), .net (.send 0), .net (.giveUp 0), .net (.cleanUp 0),
    .net (.receive containerA true)]

/-- The next command removes a running container with the current ident. -/
def Loop.reapsCurrent (s : Loop) : Bool :=
  match s.phase with
  | .removing _ name _ =>
      s.net.containers[name]?.any fun c => c.running && c.ident == s.net.currentIdent
  | _ => false

/-- The next command removes a running container with the shell of `id`. -/
def Loop.reapsShell (s : Loop) (id : Uuid) : Bool :=
  match s.phase with
  | .removing _ name _ =>
      s.net.containers[name]?.any fun c => c.running && c.sessions[id]? == some .running
  | _ => false

theorem started_besideA : Started besideA := by
  have hone : ∀ (name : String) c, besideA.net.containers[name]? = some c →
      name = containerA ∧ c = .created imageA := by
    intro name c hc
    rw [besideA, Table.lookup_insert] at hc
    split at hc
    · rename_i hname
      exact ⟨hname.symm, (Option.some.inj hc).symm⟩
    · simp at hc
  refine ⟨?_, rfl, rfl⟩
  constructor
  case hosted =>
    intro name name' c c' _ hc hc' _ _
    exact (hone name c hc).1.trans (hone name' c' hc').1.symm
  case serving =>
    intro name c k hc hk
    cases (hone name c hc).2
    cases hk
  case stopped =>
    intro name c hc hrun
    cases (hone name c hc).2
    cases hrun
  case ended =>
    intro name c p hc hp
    cases (hone name c hc).2
    cases hp
  case removing =>
    intro name c id hc hid
    cases (hone name c hc).2
    cases hid
  case conn => exact fun k => ⟨rfl, rfl, rfl, rfl, rfl⟩
  all_goals first | rfl | exact fun _ => rfl

theorem Loop.reapsCurrent_spec {s : Loop} (h : s.reapsCurrent = true) : ReapsInUse s := by
  unfold reapsCurrent at h
  split at h
  · rename_i image name names hphase
    cases hc : s.net.containers[name]? with
    | none => simp [hc] at h
    | some c =>
        simp only [hc, Option.any_some, Bool.and_eq_true, beq_iff_eq] at h
        exact ⟨image, name, names, hphase, c, hc, h.1, .inr h.2⟩
  · cases h

theorem Loop.reapsShell_spec {s : Loop} {id : Uuid} (h : s.reapsShell id = true) :
    ReapsInUse s := by
  unfold reapsShell at h
  split at h
  · rename_i image name names hphase
    cases hc : s.net.containers[name]? with
    | none => simp [hc] at h
    | some c =>
        simp only [hc, Option.any_some, Bool.and_eq_true, beq_iff_eq] at h
        exact ⟨image, name, names, hphase, c, hc, h.1, .inl ⟨id, h.2⟩⟩
  · cases h

/-- **Reaping hits what is in use**: after a failed publication the pass removes the container that
new sessions are still routed to, and after a spawn that was given up too early it removes the
container with its shell. -/
theorem reaping_hits_containers_in_use :
    Started besideA ∧
    (∃ t, Run Loop.step anyStep besideA t ∧ t.reapsCurrent = true ∧ ReapsInUse t) ∧
    ∃ t, Run Loop.step anyStep besideA t ∧ t.reapsShell 7 = true ∧ ReapsInUse t := by
  have hcurrent : ∃ t ∈ runList Loop.step besideA (publishA ++ rollUnpublished),
      t.reapsCurrent = true := by
    decide +kernel
  have hshell : ∃ t ∈ runList Loop.step besideA (publishA ++ spawnLate ++ rollPublished),
      t.reapsShell 7 = true := by
    decide +kernel
  obtain ⟨t, ht, hp⟩ := hcurrent
  obtain ⟨u, hu, hq⟩ := hshell
  exact ⟨started_besideA, ⟨t, .of_runList _ ht, hp, Loop.reapsCurrent_spec hp⟩,
    u, .of_runList _ hu, hq, Loop.reapsShell_spec hq⟩

/-- The emptied container of `imageA` is removed in a run whose steps are all settled. -/
theorem reap_spares_containers_in_use_rolled : ∃ t,
    Run Loop.step Settled besideA t ∧
    t.phase = .removing imageB containerA [] ∧ ¬ ReapsInUse t := by
  have hrun : ∃ t ∈ runList (restrict Loop.step Settled) besideA (publishA ++ rollPublished),
      t.phase = .removing imageB containerA [] := by
    decide +kernel
  obtain ⟨t, ht, hphase⟩ := hrun
  have hrun := Run.of_restrict _ ht
  exact ⟨t, hrun, hphase, reap_spares_containers_in_use started_besideA hrun⟩

end Runs

end Sulion.Devenv
