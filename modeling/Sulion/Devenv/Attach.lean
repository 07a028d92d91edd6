import Sulion.Lib.Transition

set_option autoImplicit false

/-! # Attaching to a terminal

An attachment gets a snapshot of the emulator and then every chunk of output that reaches the node.
Four tasks take part: the reader of the PTY (`pty/host.rs`) feeds a chunk to the emulator and then
broadcasts it, the pump (`devenv/server.rs`) forwards what was broadcast and renders snapshots, the
link hands both to the node in the order of the wire, and the task of `open_terminal` subscribes
when it has sent the snapshot.

Here is one session with any number of attachments, over one connection, while the shell is alive
and no receiver lags. A snapshot stands for the number of bytes that it renders. `attach_exact` says
when an attachment gets the bytes from there on: the snapshot may not be rendered between the two
steps of the reader or with chunks left to forward, and no output may be handled between the
snapshot and the subscription.
-/

namespace Sulion.Devenv.Attach

open Transition

abbrev Chunk := List UInt8

/-- What the devenv sends for the session. -/
inductive Frame
  | output (data : Chunk)
  | snapshot (reply : Nat) (rendered : Nat)
  deriving DecidableEq

/-- Where the pump is with a snapshot request. -/
inductive Pump
  | forwarding
  | draining (reply : Nat)
  /-- `drain_pending` has found the queue empty. -/
  | drained (reply : Nat)
  deriving DecidableEq

/-- The task of `open_terminal`. Without a snapshot, when the request has timed out, it goes on all
the same. -/
inductive Attachment
  | waiting
  | answered (rendered : Option Nat)
  | streaming (rendered : Option Nat) (queue : List Chunk) (sent : List Chunk)
  deriving DecidableEq

structure State where
  /-- The bytes that the emulator has processed. -/
  fed : List UInt8 := []
  /-- A chunk between `emulator.process` and `tx.send`. -/
  inHand : Option Chunk := none
  /-- Broadcast, and not received by the pump. -/
  pending : List Chunk := []
  pump : Pump := .forwarding
  requests : List Nat := []
  wire : List Frame := []
  /-- In the order in which they were opened; a reply is named after its attachment. -/
  attachments : List Attachment := []

inductive Action
  | read (chunk : Chunk)
  | broadcast
  | forward
  | takeRequest
  | drain
  | render
  | receive
  | openTerminal
  | timeout (a : Nat)
  | subscribe (a : Nat)
  /-- The next chunk goes out as a `terminal.output`. -/
  | send (a : Nat)

/-- A chunk for the subscribers. -/
def Attachment.deliver (data : Chunk) : Attachment → Attachment
  | .streaming rendered queue sent => .streaming rendered (queue ++ [data]) sent
  | attachment => attachment

/-- The link handles a frame. -/
def State.handle (s : State) : Frame → State
  | .output data => { s with attachments := s.attachments.map (Attachment.deliver data) }
  | .snapshot reply rendered =>
      match s.attachments[reply]? with
      | some .waiting => { s with attachments := s.attachments.set reply (.answered rendered) }
      -- the waiter is gone
      | _ => s

def step (s : State) : Action → Option State
  | .read chunk =>
      match s.inHand with
      | none => some { s with fed := s.fed ++ chunk, inHand := some chunk }
      | some _ => none
  | .broadcast =>
      s.inHand.map fun chunk => { s with inHand := none, pending := s.pending ++ [chunk] }
  | .forward =>
      match s.pump, s.pending with
      | .drained _, _ | _, [] => none
      | _, chunk :: rest => some { s with pending := rest, wire := s.wire ++ [.output chunk] }
  | .takeRequest =>
      match s.pump, s.requests with
      | .forwarding, reply :: rest => some { s with pump := .draining reply, requests := rest }
      | _, _ => none
  | .drain =>
      match s.pump, s.pending with
      | .draining reply, [] => some { s with pump := .drained reply }
      | _, _ => none
  | .render =>
      match s.pump with
      | .drained reply =>
          some { s with
            pump := .forwarding
            wire := s.wire ++ [.snapshot reply s.fed.length] }
      | _ => none
  | .receive =>
      match s.wire with
      | [] => none
      | frame :: rest => some ({ s with wire := rest }.handle frame)
  | .openTerminal =>
      some { s with
        requests := s.requests ++ [s.attachments.length]
        attachments := s.attachments ++ [.waiting] }
  | .timeout a =>
      match s.attachments[a]? with
      | some .waiting => some { s with attachments := s.attachments.set a (.answered none) }
      | _ => none
  | .subscribe a =>
      match s.attachments[a]? with
      | some (.answered rendered) =>
          some { s with attachments := s.attachments.set a (.streaming rendered [] []) }
      | _ => none
  | .send a =>
      match s.attachments[a]? with
      | some (.streaming rendered (chunk :: queue) sent) =>
          some { s with
            attachments := s.attachments.set a (.streaming rendered queue (sent ++ [chunk])) }
      | _ => none

/-! ## Where a byte is -/

def Frame.data : Frame → Chunk
  | .output data => data
  | .snapshot _ _ => []

/-- Processed by the emulator, and not forwarded yet. -/
def State.behind (s : State) : List UInt8 := s.pending.flatten ++ s.inHand.getD []

/-- Not handled by the link yet. -/
def State.ahead (s : State) : List UInt8 := s.wire.flatMap Frame.data ++ s.behind

/-- After the first `p` bytes come these, and then what the link has not handled. -/
def Continues (s : State) (p : Nat) (bytes : List UInt8) : Prop :=
  p ≤ s.fed.length ∧ s.fed.drop p = bytes ++ s.ahead

structure Inv (s : State) : Prop where
  onWire : ∀ front reply p back, s.wire = front ++ .snapshot reply p :: back →
    p ≤ s.fed.length ∧ s.fed.drop p = back.flatMap Frame.data ++ s.behind
  answered : ∀ p, .answered (some p) ∈ s.attachments → Continues s p []
  streaming : ∀ p queue sent, .streaming (some p) queue sent ∈ s.attachments →
    Continues s p (sent.flatten ++ queue.flatten)

def Frame.isOutput : Frame → Bool
  | .output _ => true
  | .snapshot _ _ => false

/-- It has its snapshot, and has not subscribed. -/
def Attachment.isAnswered : Attachment → Bool
  | .answered (some _) => true
  | _ => false

/-- The snapshot is rendered when the pump has forwarded what the emulator has processed, and no
output is handled while an attachment that has its snapshot has not subscribed. -/
def Timely (s : State) : Action → Prop
  | .render => s.inHand = none ∧ s.pending = []
  | .receive => s.wire.head?.any Frame.isOutput = true →
      ∀ x ∈ s.attachments, x.isAnswered = false
  | _ => True

/-- Nobody is attached, whatever was output before. -/
structure Unattached (s : State) : Prop where
  wire : ∀ reply p, .snapshot reply p ∉ s.wire
  attachments : s.attachments = []

section Proofs

variable {s s' : State} {p : Nat} {bytes : List UInt8} {x : Attachment}

theorem inv_start (h : Unattached s) : Inv s where
  onWire front reply p back hwire := by
    have hmem : Frame.snapshot reply p ∈ s.wire := by
      rw [hwire]
      exact List.mem_append_right _ List.mem_cons_self
    exact absurd hmem (h.wire reply p)
  answered := by
    rw [h.attachments]
    exact fun _ hmem => absurd hmem List.not_mem_nil
  streaming := by
    rw [h.attachments]
    exact fun _ _ _ hmem => absurd hmem List.not_mem_nil

/-! ## One step -/

/-- A step of one attachment. -/
theorem Inv.set (h : Inv s) (a : Nat)
    (hanswered : ∀ p, x = .answered (some p) → Continues s p [])
    (hstreaming : ∀ p queue sent, x = .streaming (some p) queue sent →
      Continues s p (sent.flatten ++ queue.flatten)) :
    Inv { s with attachments := s.attachments.set a x } where
  onWire := h.onWire
  answered p hmem := by
    rcases List.mem_or_eq_of_mem_set hmem with hold | hnew
    · exact h.answered p hold
    · exact hanswered p hnew.symm
  streaming p queue sent hmem := by
    rcases List.mem_or_eq_of_mem_set hmem with hold | hnew
    · exact h.streaming p queue sent hold
    · exact hstreaming p queue sent hnew.symm

/-- A step that only moves bytes between the emulator and the link. -/
theorem Inv.moved (h : Inv s) (hfed : s'.fed = s.fed)
    (hattachments : s'.attachments = s.attachments)
    (hahead : s'.ahead = s.ahead)
    (hwire : ∀ front reply p back, s'.wire = front ++ .snapshot reply p :: back →
      p ≤ s.fed.length ∧ s.fed.drop p = back.flatMap Frame.data ++ s'.behind) : Inv s' where
  onWire := by
    rw [hfed]
    exact hwire
  answered p hmem := by
    rw [hattachments] at hmem
    unfold Continues
    rw [hfed, hahead]
    exact h.answered p hmem
  streaming p queue sent hmem := by
    rw [hattachments] at hmem
    unfold Continues
    rw [hfed, hahead]
    exact h.streaming p queue sent hmem

theorem Inv.read (h : Inv s) (chunk : Chunk) (hfree : s.inHand = none) :
    Inv { s with fed := s.fed ++ chunk, inHand := some chunk } := by
  have hbehind : State.behind { s with fed := s.fed ++ chunk, inHand := some chunk } =
      s.behind ++ chunk := by
    unfold State.behind
    rw [hfree]
    simp
  have hahead : State.ahead { s with fed := s.fed ++ chunk, inHand := some chunk } =
      s.ahead ++ chunk := by
    unfold State.ahead
    rw [hbehind]
    exact (List.append_assoc _ _ _).symm
  have hcontinues : ∀ p bytes, Continues s p bytes →
      Continues { s with fed := s.fed ++ chunk, inHand := some chunk } p bytes := by
    rintro p bytes ⟨hle, hdrop⟩
    refine ⟨hle.trans (by simp), ?_⟩
    show (s.fed ++ chunk).drop p = bytes ++ State.ahead _
    rw [List.drop_append_of_le_length hle, hdrop, hahead, List.append_assoc]
  refine ⟨fun front reply p back hwire => ?_, fun p hmem => hcontinues p _ (h.answered p hmem),
    fun p queue sent hmem => hcontinues p _ (h.streaming p queue sent hmem)⟩
  obtain ⟨hle, hdrop⟩ := h.onWire front reply p back hwire
  refine ⟨hle.trans (by simp), ?_⟩
  show (s.fed ++ chunk).drop p = back.flatMap Frame.data ++ State.behind _
  rw [List.drop_append_of_le_length hle, hdrop, hbehind, List.append_assoc]

/-- Where a snapshot is when another frame has been sent. -/
theorem snapshot_of_snoc {wire front back : List Frame} {frame : Frame} {reply p : Nat}
    (h : wire ++ [frame] = front ++ .snapshot reply p :: back) :
    (back = [] ∧ frame = .snapshot reply p) ∨
      ∃ back', back = back' ++ [frame] ∧ wire = front ++ .snapshot reply p :: back' := by
  rcases List.eq_nil_or_concat back with rfl | ⟨back', last, rfl⟩
  · have hlast := List.append_inj_right' h rfl
    exact .inl ⟨rfl, List.head_eq_of_cons_eq hlast⟩
  · rw [List.concat_eq_append] at h ⊢
    have hsplit : wire ++ [frame] = (front ++ .snapshot reply p :: back') ++ [last] := by
      rw [h]
      simp
    obtain ⟨hwire, hframe⟩ := List.append_inj' hsplit rfl
    obtain rfl := List.head_eq_of_cons_eq hframe
    exact .inr ⟨back', rfl, hwire⟩

theorem Inv.forward (h : Inv s) {chunk : Chunk} {rest : List Chunk}
    (hpending : s.pending = chunk :: rest) :
    Inv { s with pending := rest, wire := s.wire ++ [.output chunk] } := by
  have hbehind : s.behind =
      chunk ++ State.behind { s with pending := rest, wire := s.wire ++ [.output chunk] } := by
    unfold State.behind
    rw [hpending]
    simp
  refine h.moved rfl rfl ?_ fun front reply p back hwire => ?_
  · unfold State.ahead
    rw [hbehind, List.flatMap_append, List.append_assoc]
    simp [Frame.data]
  · rcases snapshot_of_snoc hwire with ⟨-, hframe⟩ | ⟨back', rfl, hold⟩
    · cases hframe
    · obtain ⟨hle, hdrop⟩ := h.onWire front reply p back' hold
      refine ⟨hle, ?_⟩
      rw [hdrop, hbehind, List.flatMap_append, List.append_assoc]
      simp [Frame.data]

/-- A snapshot has everything that the pump has forwarded, and nothing else. -/
theorem Inv.render (h : Inv s) (reply : Nat) (hfree : s.inHand = none) (hpending : s.pending = []) :
    Inv { s with pump := .forwarding, wire := s.wire ++ [.snapshot reply s.fed.length] } := by
  have hbehind : s.behind = [] := by
    unfold State.behind
    rw [hfree, hpending]
    rfl
  refine h.moved rfl rfl ?_ fun front reply' p back hwire => ?_
  · show (s.wire ++ [Frame.snapshot reply s.fed.length]).flatMap Frame.data ++ s.behind = s.ahead
    rw [List.flatMap_append, List.flatMap_singleton, State.ahead]
    simp [Frame.data]
  · show p ≤ s.fed.length ∧ s.fed.drop p = back.flatMap Frame.data ++ s.behind
    rcases snapshot_of_snoc hwire with ⟨rfl, hframe⟩ | ⟨back', rfl, hold⟩
    · obtain ⟨-, rfl⟩ := Frame.snapshot.inj hframe
      rw [hbehind]
      exact ⟨le_rfl, List.drop_length⟩
    · obtain ⟨hle, hdrop⟩ := h.onWire front reply' p back' hold
      refine ⟨hle, ?_⟩
      rw [hdrop, List.flatMap_append]
      simp [Frame.data]

/-- The next frame is off the wire. -/
theorem Inv.onWire_tail (h : Inv s) {frame : Frame} {rest : List Frame}
    (hwire : s.wire = frame :: rest) : ∀ front reply p back,
    rest = front ++ Frame.snapshot reply p :: back →
      p ≤ s.fed.length ∧ s.fed.drop p = back.flatMap Frame.data ++ s.behind := by
  intro front reply p back hrest
  refine h.onWire (frame :: front) reply p back ?_
  rw [hwire, hrest]
  rfl

theorem Inv.receiveOutput (h : Inv s) {data : Chunk} {rest : List Frame}
    (hwire : s.wire = .output data :: rest)
    (htimely : ∀ x ∈ s.attachments, x.isAnswered = false) :
    Inv ({ s with wire := rest }.handle (.output data)) := by
  have hahead : s.ahead = data ++ (rest.flatMap Frame.data ++ s.behind) := by
    unfold State.ahead
    rw [hwire, List.flatMap_cons, List.append_assoc]
    rfl
  refine ⟨h.onWire_tail hwire, fun p hmem => ?_, fun p queue sent hmem => ?_⟩
  · obtain ⟨x, hx, hdeliver⟩ := List.mem_map.mp hmem
    cases x with
    | answered rendered =>
        obtain rfl := Attachment.answered.inj hdeliver
        cases htimely _ hx
    | waiting => cases hdeliver
    | streaming rendered queue sent => cases hdeliver
  · obtain ⟨x, hx, hdeliver⟩ := List.mem_map.mp hmem
    cases x with
    | streaming rendered queue' sent' =>
        obtain ⟨rfl, rfl, rfl⟩ := Attachment.streaming.inj hdeliver
        obtain ⟨hle, hdrop⟩ := h.streaming p queue' sent' hx
        refine ⟨hle, ?_⟩
        show s.fed.drop p = _ ++ (rest.flatMap Frame.data ++ s.behind)
        rw [hdrop, hahead]
        simp
    | waiting => cases hdeliver
    | answered rendered => cases hdeliver

theorem Inv.receiveSnapshot (h : Inv s) {reply rendered : Nat} {rest : List Frame}
    (hwire : s.wire = .snapshot reply rendered :: rest) :
    Inv ({ s with wire := rest }.handle (.snapshot reply rendered)) := by
  have hahead : State.ahead { s with wire := rest } = s.ahead := by
    unfold State.ahead
    rw [hwire]
    rfl
  have hrest : Inv { s with wire := rest } :=
    h.moved rfl rfl hahead (h.onWire_tail hwire)
  unfold State.handle
  dsimp only
  split
  · refine hrest.set reply (fun p heq => ?_) nofun
    obtain rfl := Option.some.inj (Attachment.answered.inj heq)
    exact h.onWire [] reply rendered rest hwire
  · exact hrest

/-- **One step.** -/
theorem inv_step : Preserved step Timely Inv := by
  intro s a s' h htimely hstep
  cases a with
  | read chunk =>
      unfold step at hstep
      dsimp only at hstep
      split at hstep
      · rename_i hfree
        obtain rfl := Option.some.inj hstep
        exact h.read chunk hfree
      · cases hstep
  | broadcast =>
      obtain ⟨chunk, hchunk, rfl⟩ := Option.map_eq_some_iff.mp hstep
      have hbehind : State.behind { s with inHand := none, pending := s.pending ++ [chunk] } =
          s.behind := by
        unfold State.behind
        rw [hchunk]
        simp
      refine h.moved rfl rfl ?_ ?_
      · unfold State.ahead
        rw [hbehind]
      · rw [hbehind]
        exact h.onWire
  | forward =>
      unfold step at hstep
      dsimp only at hstep
      split at hstep
      · cases hstep
      · cases hstep
      · rename_i chunk rest hpending _
        obtain rfl := Option.some.inj hstep
        exact h.forward hpending
  | takeRequest =>
      unfold step at hstep
      dsimp only at hstep
      split at hstep
      · obtain rfl := Option.some.inj hstep
        exact h.moved rfl rfl rfl h.onWire
      · cases hstep
  | drain =>
      unfold step at hstep
      dsimp only at hstep
      split at hstep
      · obtain rfl := Option.some.inj hstep
        exact h.moved rfl rfl rfl h.onWire
      · cases hstep
  | render =>
      unfold step at hstep
      dsimp only at hstep
      split at hstep
      · rename_i reply _
        obtain rfl := Option.some.inj hstep
        exact h.render reply htimely.1 htimely.2
      · cases hstep
  | receive =>
      unfold step at hstep
      dsimp only at hstep
      split at hstep
      · cases hstep
      · rename_i frame rest hwire
        obtain rfl := Option.some.inj hstep
        cases frame with
        | output data =>
            refine h.receiveOutput hwire (htimely ?_)
            rw [hwire]
            rfl
        | snapshot reply rendered => exact h.receiveSnapshot hwire
  | openTerminal =>
      obtain rfl := Option.some.inj hstep
      refine ⟨h.onWire, fun p hmem => ?_, fun p queue sent hmem => ?_⟩
      · rcases List.mem_append.mp hmem with hold | hnew
        · exact h.answered p hold
        · cases List.mem_singleton.mp hnew
      · rcases List.mem_append.mp hmem with hold | hnew
        · exact h.streaming p queue sent hold
        · cases List.mem_singleton.mp hnew
  | timeout a =>
      unfold step at hstep
      dsimp only at hstep
      split at hstep
      · obtain rfl := Option.some.inj hstep
        exact h.set a nofun nofun
      · cases hstep
  | subscribe a =>
      unfold step at hstep
      dsimp only at hstep
      split at hstep
      · rename_i rendered hattachment
        obtain rfl := Option.some.inj hstep
        refine h.set a nofun fun p queue sent heq => ?_
        obtain ⟨rfl, rfl, rfl⟩ := Attachment.streaming.inj heq
        exact h.answered p (List.mem_of_getElem? hattachment)
      · cases hstep
  | send a =>
      unfold step at hstep
      dsimp only at hstep
      split at hstep
      · rename_i rendered chunk queue sent hattachment
        obtain rfl := Option.some.inj hstep
        refine h.set a nofun fun p queue' sent' heq => ?_
        obtain ⟨rfl, rfl, rfl⟩ := Attachment.streaming.inj heq
        have hbefore := h.streaming p _ sent (List.mem_of_getElem? hattachment)
        simpa using hbefore
      · cases hstep

end Proofs

/-- **An attachment has no gap and no repeat.** In every run whose snapshots are rendered with
nothing left to forward, and in which no output is handled between a snapshot and the subscription
after it, the messages of an attachment carry the bytes from its snapshot on, in order; when
everything has been handled they carry all of them. -/
theorem attach_exact {start s : State} (hstart : Unattached start) (hrun : Run step Timely start s)
    {a p : Nat} {queue sent : List Chunk}
    (h : s.attachments[a]? = some (.streaming (some p) queue sent)) :
    p ≤ s.fed.length ∧ sent.flatten <+: s.fed.drop p ∧
      (queue = [] → s.wire = [] → s.pending = [] → s.inHand = none →
        sent.flatten = s.fed.drop p) := by
  have hinv := hrun.invariant inv_step (inv_start hstart)
  obtain ⟨hle, hdrop⟩ := hinv.streaming p queue sent (List.mem_of_getElem? h)
  refine ⟨hle, ?_, fun hqueue hwire hpending hfree => ?_⟩
  · rw [hdrop, List.append_assoc]
    exact List.prefix_append _ _
  · rw [hdrop]
    unfold State.ahead State.behind
    rw [hqueue, hwire, hpending, hfree]
    simp

/-! ## Attaching while the shell writes -/

/-- The snapshot is rendered and received, and the attachment subscribes, between two chunks. -/
def quietAttach : List Action :=
  [.read [1], .broadcast, .forward, .receive, .openTerminal, .takeRequest, .drain, .render,
    .receive, .subscribe 0, .read [2], .broadcast, .forward, .receive, .send 0]

instance (s : State) (a : Action) : Decidable (Timely s a) :=
  match a with
  | .render => inferInstanceAs (Decidable (s.inHand = none ∧ s.pending = []))
  | .receive =>
      inferInstanceAs (Decidable (s.wire.head?.any Frame.isOutput = true →
        ∀ x ∈ s.attachments, x.isAnswered = false))
  | .read _ | .broadcast | .forward | .takeRequest | .drain | .openTerminal | .timeout _
  | .subscribe _ | .send _ => .isTrue trivial

theorem attach_exact_quiet : ∃ s, runList (restrict step Timely) {} quietAttach = some s ∧
    s.attachments = [.streaming (some 1) [] [[2]]] ∧ 1 ≤ s.fed.length ∧
      [[2]].flatten <+: s.fed.drop 1 ∧
      ([] = ([] : List Chunk) → s.wire = [] → s.pending = [] → s.inHand = none →
        [[2]].flatten = s.fed.drop 1) := by
  have hrun : ∃ s, runList (restrict step Timely) {} quietAttach = some s ∧
      s.attachments = [.streaming (some 1) [] [[2]]] := ⟨_, rfl, rfl⟩
  obtain ⟨s, hs, hattachments⟩ := hrun
  have hattached : s.attachments[0]? = some (.streaming (some 1) [] [[2]]) := by
    rw [hattachments]
    rfl
  exact ⟨s, hs, hattachments, attach_exact ⟨fun _ _ => List.not_mem_nil, rfl⟩
    (.of_restrict quietAttach hs) hattached⟩

/-- A snapshot with a chunk that is not broadcast yet. -/
def repeatingAttach : List Action :=
  [.openTerminal, .takeRequest, .drain, .read [7], .render, .broadcast, .receive, .subscribe 0,
    .forward, .receive, .send 0]

/-- A chunk that the link handles before the subscription. -/
def losingAttach : List Action :=
  [.openTerminal, .takeRequest, .drain, .render, .receive, .read [7], .broadcast, .forward,
    .receive, .subscribe 0]

/-- Without the condition a chunk comes again after a snapshot that has it, and another never
comes. -/
theorem attach_repeats_and_loses :
    ¬ (∀ (s : State) (a p : Nat) (queue sent : List Chunk), Run step anyStep {} s →
        s.attachments[a]? = some (.streaming (some p) queue sent) →
          sent.flatten <+: s.fed.drop p) ∧
      ¬ ∀ (s : State) (a p : Nat) (sent : List Chunk), Run step anyStep {} s →
        s.attachments[a]? = some (.streaming (some p) [] sent) → s.wire = [] → s.pending = [] →
          s.inHand = none → sent.flatten = s.fed.drop p := by
  constructor
  · intro h
    have hrun : ∃ s, runList step {} repeatingAttach = some s ∧ s.fed = [7] ∧
        s.attachments[0]? = some (.streaming (some 1) [] [[7]]) := ⟨_, rfl, rfl, rfl⟩
    obtain ⟨s, hs, hfed, hattached⟩ := hrun
    have hprefix := h s 0 1 [] [[7]] (.of_runList repeatingAttach hs) hattached
    rw [hfed] at hprefix
    exact absurd hprefix (by decide)
  · intro h
    have hrun : ∃ s, runList step {} losingAttach = some s ∧ s.fed = [7] ∧ s.wire = [] ∧
        s.pending = [] ∧ s.inHand = none ∧
        s.attachments[0]? = some (.streaming (some 0) [] []) := ⟨_, rfl, rfl, rfl, rfl, rfl, rfl⟩
    obtain ⟨s, hs, hfed, hwire, hpending, hfree, hattached⟩ := hrun
    have hall := h s 0 0 [] (.of_runList losingAttach hs) hattached hwire hpending hfree
    rw [hfed] at hall
    exact absurd hall (by decide)

end Sulion.Devenv.Attach
