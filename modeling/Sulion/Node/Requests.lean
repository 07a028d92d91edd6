import Sulion.Lib.Transition
import Sulion.Node.Fragments

set_option autoImplicit false

/-! # Requests to nodes

`NodeControl::request` and the `request.result` messages of `receive_envelope`. A call reads the
boot of the node, puts the sender of its channel into `request_waiters`, sends its envelope and
waits for its result. Its steps and those of the connections' readers interleave freely; whether an
envelope can be sent and when the time of a call is up are free too. A reader takes the sender out
of the table first and then sends, so the call may give up between the two.
-/

namespace Sulion.Node.Requests

open Rust Transition Fragments

inductive NodeProtocolError
  | unavailable
  | remote (code message : String)
  deriving DecidableEq, Repr

inductive RequestResultStatus
  | succeeded
  | failed
  deriving DecidableEq, Repr

structure RequestResultPayload where
  status : RequestResultStatus
  result : Option Json
  errorCode : Option String
  errorMessage : Option String

/-- What `request` returns for a result. -/
def RequestResultPayload.outcome (response : RequestResultPayload) :
    Except NodeProtocolError Json :=
  match response.status with
  | .succeeded => .ok (response.result.getD .null)
  | .failed =>
      .error (.remote (response.errorCode.getD "request_failed")
        (response.errorMessage.getD "node request failed"))

/-- A `request.result` message that reached the table, numbered in the order of arrival. -/
structure Receipt where
  number : Nat
  requestId : Uuid
  payload : RequestResultPayload

abbrev CallId := Nat

/-- The channel of a call. -/
inductive Slot
  | empty
  /-- The sender is out of the table and about to send. -/
  | taken (receipt : Receipt)
  | filled (receipt : Receipt)
  /-- The sender is gone. -/
  | dropped

def Slot.receipt : Slot → Option Receipt
  | .taken receipt | .filled receipt => some receipt
  | .empty | .dropped => none

inductive Stage
  | absent
  /-- It has read the boot of the node. -/
  | opened
  /-- Its sender is in the table. -/
  | inserted
  /-- Its envelope was not sent. -/
  | failing
  | waiting
  /-- It has returned, and the result it consumed. -/
  | returned (outcome : Except NodeProtocolError Json) (receipt : Option Receipt)

/-- The call has its sender in the table and has not returned. -/
def Stage.isPending : Stage → Bool
  | .inserted | .failing | .waiting => true
  | .absent | .opened | .returned .. => false

structure Call where
  nodeId : Uuid
  bootId : Uuid
  requestId : Uuid
  stage : Stage
  slot : Slot

/-- A call that has not been made. -/
def Call.unmade : Call := ⟨0, 0, 0, .absent, .empty⟩

/-- An entry of the `active` map. -/
structure ActiveConnection where
  connectionId : Uuid
  bootId : Uuid
  deriving DecidableEq, Repr

structure NodeControl where
  active : Uuid → Option ActiveConnection
  /-- `request_waiters`; a sender is known by its call. -/
  requestWaiters : Uuid → Option CallId
  calls : CallId → Call
  received : List Receipt

inductive Action
  | connect (nodeId : Uuid) (connection : ActiveConnection)
  | disconnect (nodeId : Uuid)
  | request (r : CallId) (nodeId requestId : Uuid)
  | insert (r : CallId)
  /-- `send_envelope` with its outcome. -/
  | send (r : CallId) (sent : Bool)
  /-- The entry is removed after a failed send. -/
  | withdraw (r : CallId)
  | receive (connectionId : Uuid) (envelope : WireEnvelope)
  /-- A reader sends on a channel whose sender it has taken. -/
  | deliver (r : CallId)
  | take (r : CallId)
  | timeout (r : CallId)

namespace NodeControl

def new : NodeControl :=
  { active := fun _ => none, requestWaiters := fun _ => none, calls := fun _ => .unmade,
    received := [] }

def setCall (s : NodeControl) (r : CallId) (call : Call) : NodeControl :=
  { s with calls := Function.update s.calls r call }

def goTo (s : NodeControl) (r : CallId) (stage : Stage) : NodeControl :=
  s.setCall r { s.calls r with stage := stage }

def fill (s : NodeControl) (r : CallId) (slot : Slot) : NodeControl :=
  s.setCall r { s.calls r with slot := slot }

/-- Sets the entry of a request id; a sender that was there is gone, and its channel gets
`slot`. -/
def replaceWaiter (s : NodeControl) (requestId : Uuid) (waiter : Option CallId) (slot : Slot) :
    NodeControl :=
  let replaced : NodeControl :=
    { s with requestWaiters := Function.update s.requestWaiters requestId waiter }
  (s.requestWaiters requestId).elim replaced fun r => replaced.fill r slot

/-- `validate_active`. -/
def validateActive (s : NodeControl) (connectionId : Uuid) (envelope : WireEnvelope) : Bool :=
  decide (envelope.protocolVersion = nodeProtocolVersion) &&
    (s.active envelope.nodeId).any fun connection =>
      decide (connection.connectionId = connectionId ∧ connection.bootId = envelope.bootId)

/-- The payload of an accepted message is decoded; its sender is taken out of the table. -/
def receiveEnvelope (decode : Json → Option RequestResultPayload) (s : NodeControl)
    (connectionId : Uuid) (envelope : WireEnvelope) : NodeControl :=
  if s.validateActive connectionId envelope ∧ envelope.messageKind = "request.result" then
    match envelope.requestId, decode envelope.payload with
    | some requestId, some payload =>
        let receipt : Receipt := ⟨s.received.length, requestId, payload⟩
        { s with received := s.received ++ [receipt] }.replaceWaiter requestId none
          (.taken receipt)
    | _, _ => s
  else s

def step (decode : Json → Option RequestResultPayload) (s : NodeControl) :
    Action → Option NodeControl
  | .connect nodeId connection =>
      some { s with active := Function.update s.active nodeId (some connection) }
  | .disconnect nodeId => some { s with active := Function.update s.active nodeId none }
  | .request r nodeId requestId =>
      match (s.calls r).stage, s.active nodeId with
      | .absent, some connection =>
          some (s.setCall r ⟨nodeId, connection.bootId, requestId, .opened, .empty⟩)
      | .absent, none =>
          some (s.setCall r
            ⟨nodeId, 0, requestId, .returned (.error .unavailable) none, .empty⟩)
      | _, _ => none
  | .insert r =>
      match (s.calls r).stage with
      | .opened =>
          some ((s.goTo r .inserted).replaceWaiter (s.calls r).requestId (some r) .dropped)
      | _ => none
  | .send r sent =>
      match (s.calls r).stage with
      | .inserted => some (s.goTo r (if sent then .waiting else .failing))
      | _ => none
  | .withdraw r =>
      match (s.calls r).stage with
      | .failing =>
          some ((s.replaceWaiter (s.calls r).requestId none .dropped).goTo r
            (.returned (.error .unavailable) none))
      | _ => none
  | .receive connectionId envelope => some (s.receiveEnvelope decode connectionId envelope)
  | .deliver r =>
      match (s.calls r).slot with
      | .taken receipt => some (s.fill r (.filled receipt))
      | _ => none
  | .take r =>
      match (s.calls r).stage, (s.calls r).slot with
      | .waiting, .filled receipt =>
          some (s.goTo r (.returned receipt.payload.outcome (some receipt)))
      | .waiting, .dropped => some (s.goTo r (.returned (.error .unavailable) none))
      | _, _ => none
  | .timeout r =>
      -- A result that is there already is returned. The entry of the table stays.
      match (s.calls r).stage, (s.calls r).slot with
      | .waiting, .empty => some (s.goTo r (.returned (.error .unavailable) none))
      | .waiting, .taken _ => some (s.goTo r (.returned (.error .unavailable) none))
      | _, _ => none

/-! ## Properties -/

/-- The table has entries only for calls that have not returned. -/
def NothingLeft (s : NodeControl) : Prop :=
  ∀ requestId r, s.requestWaiters requestId = some r → (s.calls r).stage.isPending

/-- A call returns a result that was received under its request id, or that the node is
unavailable. -/
def OwnResult (s : NodeControl) : Prop :=
  ∀ r outcome receipt, (s.calls r).stage = .returned outcome receipt →
    match receipt with
    | none => outcome = .error .unavailable
    | some receipt => receipt ∈ s.received ∧ receipt.requestId = (s.calls r).requestId ∧
        outcome = receipt.payload.outcome

/-- No two calls consume one message. -/
def ConsumedOnce (s : NodeControl) : Prop :=
  ∀ r r' outcome outcome' receipt receipt',
    (s.calls r).stage = .returned outcome (some receipt) →
    (s.calls r').stage = .returned outcome' (some receipt') →
    receipt.number = receipt'.number → r = r'

/-- What every step keeps. -/
structure Kept (s : NodeControl) : Prop where
  waiting : ∀ requestId r, s.requestWaiters requestId = some r →
    (s.calls r).requestId = requestId ∧ (s.calls r).slot = .empty ∧
      (s.calls r).stage ≠ .absent ∧ (s.calls r).stage ≠ .opened
  unsent : ∀ r, (s.calls r).stage = .absent ∨ (s.calls r).stage = .opened →
    (s.calls r).slot = .empty
  slots : ∀ r, ∀ receipt ∈ (s.calls r).slot.receipt,
    receipt ∈ s.received ∧ receipt.requestId = (s.calls r).requestId
  numbers : ∀ receipt ∈ s.received, receipt.number < s.received.length
  distinct : ∀ r r', ∀ receipt ∈ (s.calls r).slot.receipt, ∀ receipt' ∈ (s.calls r').slot.receipt,
    receipt.number = receipt'.number → r = r'
  returned : ∀ r outcome receipt, (s.calls r).stage = .returned outcome receipt →
    match receipt with
    | none => outcome = .error .unavailable
    | some receipt => (s.calls r).slot = .filled receipt ∧ outcome = receipt.payload.outcome

theorem Kept.new : Kept new := by
  constructor <;> simp [NodeControl.new, Call.unmade, Slot.receipt]

variable {s s' : NodeControl} {decode : Json → Option RequestResultPayload}

theorem setCall_calls (s : NodeControl) (r r' : CallId) (call : Call) :
    (s.setCall r call).calls r' = if r' = r then call else s.calls r' := by
  unfold setCall
  exact Function.update_apply ..

@[simp] theorem goTo_slot (s : NodeControl) (r r' : CallId) (stage : Stage) :
    ((s.goTo r stage).calls r').slot = (s.calls r').slot := by
  unfold goTo
  rw [setCall_calls]
  split
  · subst r'
    rfl
  · rfl

@[simp] theorem goTo_requestId (s : NodeControl) (r r' : CallId) (stage : Stage) :
    ((s.goTo r stage).calls r').requestId = (s.calls r').requestId := by
  unfold goTo
  rw [setCall_calls]
  split
  · subst r'
    rfl
  · rfl

theorem goTo_stage (s : NodeControl) (r r' : CallId) (stage : Stage) :
    ((s.goTo r stage).calls r').stage = if r' = r then stage else (s.calls r').stage := by
  unfold goTo
  rw [setCall_calls]
  split
  · rfl
  · rfl

@[simp] theorem fill_stage (s : NodeControl) (r r' : CallId) (slot : Slot) :
    ((s.fill r slot).calls r').stage = (s.calls r').stage := by
  unfold fill
  rw [setCall_calls]
  split
  · subst r'
    rfl
  · rfl

@[simp] theorem fill_requestId (s : NodeControl) (r r' : CallId) (slot : Slot) :
    ((s.fill r slot).calls r').requestId = (s.calls r').requestId := by
  unfold fill
  rw [setCall_calls]
  split
  · subst r'
    rfl
  · rfl

theorem fill_slot (s : NodeControl) (r r' : CallId) (slot : Slot) :
    ((s.fill r slot).calls r').slot = if r' = r then slot else (s.calls r').slot := by
  unfold fill
  rw [setCall_calls]
  split
  · rfl
  · rfl

@[simp] theorem replaceWaiter_requestWaiters (s : NodeControl) (requestId : Uuid)
    (waiter : Option CallId) (slot : Slot) :
    (s.replaceWaiter requestId waiter slot).requestWaiters =
      Function.update s.requestWaiters requestId waiter := by
  unfold replaceWaiter
  cases s.requestWaiters requestId <;> rfl

@[simp] theorem replaceWaiter_stage (s : NodeControl) (requestId : Uuid) (waiter : Option CallId)
    (slot : Slot) (r : CallId) :
    ((s.replaceWaiter requestId waiter slot).calls r).stage = (s.calls r).stage := by
  unfold replaceWaiter
  cases s.requestWaiters requestId with
  | none => rfl
  | some old => exact fill_stage ..

/-- A call that has its envelope on the way, or returns. -/
theorem Kept.goTo (h : Kept s) (r : CallId) {stage : Stage}
    (hmade : stage ≠ .absent ∧ stage ≠ .opened)
    (hreturned : ∀ outcome receipt, stage = .returned outcome receipt →
      match receipt with
      | none => outcome = .error .unavailable
      | some receipt => (s.calls r).slot = .filled receipt ∧ outcome = receipt.payload.outcome) :
    Kept (s.goTo r stage) := by
  constructor
  · intro requestId r' hr'
    obtain ⟨hid, hslot, hstage⟩ := h.waiting requestId r' hr'
    rw [goTo_requestId, goTo_slot, goTo_stage]
    refine ⟨hid, hslot, ?_⟩
    split
    · exact hmade
    · exact hstage
  · intro r' hr'
    rw [goTo_stage] at hr'
    rw [goTo_slot]
    split at hr'
    · exact absurd hr' (by simp [hmade])
    · exact h.unsent r' hr'
  · intro r' receipt hreceipt
    rw [goTo_slot] at hreceipt
    rw [goTo_requestId]
    exact h.slots r' receipt hreceipt
  · exact h.numbers
  · intro r₁ r₂ receipt hreceipt receipt' hreceipt'
    rw [goTo_slot] at hreceipt hreceipt'
    exact h.distinct r₁ r₂ receipt hreceipt receipt' hreceipt'
  · intro r' outcome receipt hstage
    rw [goTo_stage] at hstage
    rw [goTo_slot]
    split at hstage
    · subst r'
      exact hreturned outcome receipt hstage
    · exact h.returned r' outcome receipt hstage

/-- A message reaches the table. -/
theorem Kept.receive (h : Kept s) (requestId : Uuid) (payload : RequestResultPayload) :
    Kept { s with received := s.received ++ [⟨s.received.length, requestId, payload⟩] } := by
  refine ⟨h.waiting, h.unsent, ?_, ?_, h.distinct, h.returned⟩
  · intro r receipt hreceipt
    obtain ⟨hmem, hid⟩ := h.slots r receipt hreceipt
    exact ⟨List.mem_append_left _ hmem, hid⟩
  · intro receipt hreceipt
    rw [List.length_append, List.length_singleton]
    rcases List.mem_append.mp hreceipt with hreceipt | hreceipt
    · have := h.numbers receipt hreceipt
      omega
    · rw [List.mem_singleton.mp hreceipt]
      exact Nat.lt_succ_self _

/-- The entry of a request id is replaced, and the channel whose sender was there gets `slot`. -/
theorem Kept.replaceWaiter (h : Kept s) {requestId : Uuid} {waiter : Option CallId} {slot : Slot}
    (hwaiter : ∀ r, waiter = some r → s.requestWaiters requestId ≠ some r ∧
      (s.calls r).requestId = requestId ∧ (s.calls r).slot = .empty ∧
        (s.calls r).stage ≠ .absent ∧ (s.calls r).stage ≠ .opened)
    (hslot : ∀ receipt ∈ slot.receipt, receipt ∈ s.received ∧ receipt.requestId = requestId ∧
      ∀ r, ∀ receipt' ∈ (s.calls r).slot.receipt, receipt'.number ≠ receipt.number) :
    Kept (s.replaceWaiter requestId waiter slot) := by
  have hreplaced : ∀ id r, Function.update s.requestWaiters requestId waiter id = some r →
      s.requestWaiters requestId ≠ some r ∧ (s.calls r).requestId = id ∧
        (s.calls r).slot = .empty ∧ (s.calls r).stage ≠ .absent ∧ (s.calls r).stage ≠ .opened := by
    intro id r hr
    rw [Function.update_apply] at hr
    split at hr
    · subst id
      exact hwaiter r hr
    · rename_i hne
      obtain ⟨hid, hrest⟩ := h.waiting id r hr
      refine ⟨fun hsame => hne ?_, hid, hrest⟩
      rw [← hid, (h.waiting requestId r hsame).1]
  unfold NodeControl.replaceWaiter
  cases hold : s.requestWaiters requestId with
  | none =>
      refine ⟨fun id r hr => ?_, h.unsent, h.slots, h.numbers, h.distinct, h.returned⟩
      exact (hreplaced id r hr).2
  | some old =>
      obtain ⟨hid, hempty, hmade⟩ := h.waiting requestId old hold
      rw [hold] at hreplaced
      rw [Option.elim_some]
      constructor
      · intro id r hr
        obtain ⟨hne, hrest⟩ := hreplaced id r hr
        rw [fill_requestId, fill_slot, fill_stage, if_neg fun hsame : r = old =>
          hne (congrArg some hsame.symm)]
        exact hrest
      · intro r hr
        rw [fill_stage] at hr
        rw [fill_slot, if_neg]
        · exact h.unsent r hr
        · rintro rfl
          exact hr.elim hmade.1 hmade.2
      · intro r receipt hreceipt
        rw [fill_slot] at hreceipt
        rw [fill_requestId]
        split at hreceipt
        · subst r
          obtain ⟨hmem, hsame, -⟩ := hslot receipt hreceipt
          exact ⟨hmem, hsame.trans hid.symm⟩
        · exact h.slots r receipt hreceipt
      · exact h.numbers
      · intro r₁ r₂ receipt hreceipt receipt' hreceipt' hnumber
        rw [fill_slot] at hreceipt hreceipt'
        split at hreceipt <;> split at hreceipt'
        · rename_i h₁ h₂
          exact h₁.trans h₂.symm
        · exact absurd hnumber.symm ((hslot receipt hreceipt).2.2 r₂ receipt' hreceipt')
        · exact absurd hnumber ((hslot receipt' hreceipt').2.2 r₁ receipt hreceipt)
        · exact h.distinct r₁ r₂ receipt hreceipt receipt' hreceipt' hnumber
      · intro r outcome receipt hstage
        rw [fill_stage] at hstage
        have hreturned := h.returned r outcome receipt hstage
        cases receipt with
        | none => exact hreturned
        | some receipt =>
            -- A call that consumed a result has no entry.
            rw [fill_slot, if_neg]
            · exact hreturned
            · rintro rfl
              obtain ⟨hfilled, -⟩ := hreturned
              rw [hempty] at hfilled
              cases hfilled

/-- A reader sends what it has taken a sender for. -/
theorem Kept.deliver (h : Kept s) {r : CallId} {receipt : Receipt}
    (htaken : (s.calls r).slot = .taken receipt) : Kept (s.fill r (.filled receipt)) := by
  have hreceipt : ∀ r', ((s.fill r (.filled receipt)).calls r').slot.receipt =
      (s.calls r').slot.receipt := by
    intro r'
    rw [fill_slot]
    split
    · subst r'
      rw [htaken]
      rfl
    · rfl
  constructor
  · intro requestId r' hr'
    obtain ⟨hid, hempty, hmade⟩ := h.waiting requestId r' hr'
    rw [fill_requestId, fill_slot, fill_stage, if_neg]
    · exact ⟨hid, hempty, hmade⟩
    · rintro rfl
      rw [hempty] at htaken
      cases htaken
  · intro r' hr'
    rw [fill_stage] at hr'
    rw [fill_slot, if_neg]
    · exact h.unsent r' hr'
    · rintro rfl
      rw [h.unsent r' hr'] at htaken
      cases htaken
  · intro r' receipt' hmem
    rw [hreceipt] at hmem
    rw [fill_requestId]
    exact h.slots r' receipt' hmem
  · exact h.numbers
  · intro r₁ r₂ receipt₁ h₁ receipt₂ h₂
    rw [hreceipt] at h₁ h₂
    exact h.distinct r₁ r₂ receipt₁ h₁ receipt₂ h₂
  · intro r' outcome receipt' hstage
    rw [fill_stage] at hstage
    have hreturned := h.returned r' outcome receipt' hstage
    cases receipt' with
    | none => exact hreturned
    | some receipt' =>
        rw [fill_slot, if_neg]
        · exact hreturned
        · rintro rfl
          rw [hreturned.1] at htaken
          cases htaken

/-- A call is made. -/
theorem Kept.request (h : Kept s) {r : CallId} (habsent : (s.calls r).stage = .absent)
    {call : Call} (hempty : call.slot = .empty)
    (hstage : call.stage = .opened ∨ call.stage = .returned (.error .unavailable) none) :
    Kept (s.setCall r call) := by
  have hreceipt : ∀ r', ((s.setCall r call).calls r').slot.receipt = (s.calls r').slot.receipt := by
    intro r'
    rw [setCall_calls]
    split
    · subst r'
      rw [hempty, h.unsent _ (.inl habsent)]
    · rfl
  constructor
  · intro requestId r' hr'
    have hwaiting := h.waiting requestId r' hr'
    rw [setCall_calls, if_neg]
    · exact hwaiting
    · rintro rfl
      exact hwaiting.2.2.1 habsent
  · intro r' hr'
    rw [setCall_calls] at hr' ⊢
    split at hr'
    · rename_i hr
      rw [if_pos hr]
      exact hempty
    · rename_i hr
      rw [if_neg hr]
      exact h.unsent r' hr'
  · intro r' receipt hmem
    rw [hreceipt] at hmem
    obtain ⟨hreceived, hid⟩ := h.slots r' receipt hmem
    refine ⟨hreceived, ?_⟩
    rw [setCall_calls, if_neg]
    · exact hid
    · rintro rfl
      rw [h.unsent _ (.inl habsent)] at hmem
      cases hmem
  · exact h.numbers
  · intro r₁ r₂ receipt₁ h₁ receipt₂ h₂
    rw [hreceipt] at h₁ h₂
    exact h.distinct r₁ r₂ receipt₁ h₁ receipt₂ h₂
  · intro r' outcome receipt hreturned
    rw [setCall_calls] at hreturned ⊢
    split at hreturned
    · rcases hstage with hopened | hfailed
      · rw [hopened] at hreturned
        cases hreturned
      · rw [hfailed] at hreturned
        cases hreturned
        rfl
    · rename_i hr
      rw [if_neg hr]
      exact h.returned r' outcome receipt hreturned

theorem Kept.receiveEnvelope (h : Kept s) (connectionId : Uuid) (envelope : WireEnvelope) :
    Kept (s.receiveEnvelope decode connectionId envelope) := by
  unfold NodeControl.receiveEnvelope
  split
  · split
    · rename_i requestId payload _ _
      refine (h.receive requestId payload).replaceWaiter (fun r hr => by cases hr) ?_
      rintro receipt ⟨⟩
      refine ⟨List.mem_append_right _ (List.mem_singleton_self _), rfl, ?_⟩
      intro r receipt' hreceipt'
      exact (h.numbers receipt' (h.slots r receipt' hreceipt').1).ne
    · exact h
  · exact h

theorem kept_step : Preserved (step decode) anyStep Kept := by
  intro s a s' h _ hstep
  cases a with
  | connect nodeId connection =>
      cases hstep
      exact ⟨h.waiting, h.unsent, h.slots, h.numbers, h.distinct, h.returned⟩
  | disconnect nodeId =>
      cases hstep
      exact ⟨h.waiting, h.unsent, h.slots, h.numbers, h.distinct, h.returned⟩
  | request r nodeId requestId =>
      simp only [step] at hstep
      split at hstep <;> cases hstep
      · rename_i habsent _
        exact h.request habsent rfl (.inl rfl)
      · rename_i habsent _
        exact h.request habsent rfl (.inr rfl)
  | insert r =>
      simp only [step] at hstep
      split at hstep <;> cases hstep
      rename_i hopened
      have hmade : Kept (s.goTo r .inserted) :=
        h.goTo r (by simp) fun outcome receipt hreturned => by cases hreturned
      refine hmade.replaceWaiter ?_ fun receipt hreceipt => by cases hreceipt
      rintro _ ⟨⟩
      refine ⟨fun hentry => (h.waiting _ r hentry).2.2.2 hopened, goTo_requestId .., ?_, ?_⟩
      · rw [goTo_slot]
        exact h.unsent r (.inr hopened)
      · rw [goTo_stage, if_pos rfl]
        simp
  | send r sent =>
      simp only [step] at hstep
      split at hstep <;> cases hstep
      cases sent
      · exact h.goTo r (by simp) fun outcome receipt hreturned => by cases hreturned
      · exact h.goTo r (by simp) fun outcome receipt hreturned => by cases hreturned
  | withdraw r =>
      simp only [step] at hstep
      split at hstep <;> cases hstep
      have hwithdrawn : Kept (s.replaceWaiter (s.calls r).requestId none .dropped) :=
        h.replaceWaiter (fun r' hr' => by cases hr') fun receipt hreceipt => by cases hreceipt
      refine hwithdrawn.goTo r (by simp) ?_
      rintro _ _ ⟨⟩
      rfl
  | receive connectionId envelope =>
      cases hstep
      exact h.receiveEnvelope connectionId envelope
  | deliver r =>
      simp only [step] at hstep
      split at hstep <;> cases hstep
      rename_i receipt htaken
      exact h.deliver htaken
  | take r =>
      simp only [step] at hstep
      split at hstep <;> cases hstep
      · rename_i receipt _ hfilled
        refine h.goTo r (by simp) ?_
        rintro _ _ ⟨⟩
        exact ⟨hfilled, rfl⟩
      · refine h.goTo r (by simp) ?_
        rintro _ _ ⟨⟩
        rfl
  | timeout r =>
      simp only [step] at hstep
      split at hstep <;> cases hstep
      · refine h.goTo r (by simp) ?_
        rintro _ _ ⟨⟩
        rfl
      · refine h.goTo r (by simp) ?_
        rintro _ _ ⟨⟩
        rfl

theorem Kept.ownResult (h : Kept s) : OwnResult s := by
  intro r outcome receipt hstage
  have hreturned := h.returned r outcome receipt hstage
  cases receipt with
  | none => exact hreturned
  | some receipt =>
      obtain ⟨hfilled, houtcome⟩ := hreturned
      obtain ⟨hmem, hid⟩ := h.slots r receipt (by rw [hfilled]; rfl)
      exact ⟨hmem, hid, houtcome⟩

theorem Kept.consumedOnce (h : Kept s) : ConsumedOnce s := by
  intro r r' outcome outcome' receipt receipt' hstage hstage' hnumber
  have hfilled : (s.calls r).slot = .filled receipt := (h.returned r _ _ hstage).1
  have hfilled' : (s.calls r').slot = .filled receipt' := (h.returned r' _ _ hstage').1
  refine h.distinct r r' receipt ?_ receipt' ?_ hnumber
  · rw [hfilled]
    rfl
  · rw [hfilled']
    rfl

/-! ## Every run -/

/-- No call gives up while its sender is in the table. -/
def InTime (s : NodeControl) : Action → Prop
  | .timeout r => s.requestWaiters (s.calls r).requestId ≠ some r
  | _ => True

/-- A call that has returned stays as it is. -/
theorem returned_step {a : Action} (hstep : step decode s a = some s') {r : CallId}
    {outcome : Except NodeProtocolError Json} {receipt : Option Receipt}
    (hreturned : (s.calls r).stage = .returned outcome receipt) :
    (s'.calls r).stage = .returned outcome receipt := by
  have hgoTo : ∀ (t : NodeControl) (r' : CallId) (stage : Stage),
      (t.calls r).stage = .returned outcome receipt → r ≠ r' →
        ((t.goTo r' stage).calls r).stage = .returned outcome receipt := by
    intro t r' stage ht hne
    rw [goTo_stage, if_neg hne]
    exact ht
  have hother : ∀ (r' : CallId) (stage : Stage), (s.calls r').stage = stage →
      (∀ outcome receipt, stage ≠ .returned outcome receipt) → r ≠ r' := by
    rintro r' stage hr' hne rfl
    exact hne _ _ (hr'.symm.trans hreturned)
  cases a with
  | connect nodeId connection =>
      cases hstep
      exact hreturned
  | disconnect nodeId =>
      cases hstep
      exact hreturned
  | request r' nodeId requestId =>
      simp only [step] at hstep
      split at hstep <;> cases hstep
      · rename_i habsent _
        rw [setCall_calls, if_neg (hother r' _ habsent (by simp))]
        exact hreturned
      · rename_i habsent _
        rw [setCall_calls, if_neg (hother r' _ habsent (by simp))]
        exact hreturned
  | insert r' =>
      simp only [step] at hstep
      split at hstep <;> cases hstep
      rename_i hopened
      rw [replaceWaiter_stage]
      exact hgoTo s r' _ hreturned (hother r' _ hopened (by simp))
  | send r' sent =>
      simp only [step] at hstep
      split at hstep <;> cases hstep
      rename_i hinserted
      exact hgoTo s r' _ hreturned (hother r' _ hinserted (by simp))
  | withdraw r' =>
      simp only [step] at hstep
      split at hstep <;> cases hstep
      rename_i hfailing
      refine hgoTo _ r' _ ?_ (hother r' _ hfailing (by simp))
      rw [replaceWaiter_stage]
      exact hreturned
  | receive connectionId envelope =>
      cases hstep
      unfold NodeControl.receiveEnvelope
      split
      · split
        · rw [replaceWaiter_stage]
          exact hreturned
        · exact hreturned
      · exact hreturned
  | deliver r' =>
      simp only [step] at hstep
      split at hstep <;> cases hstep
      rw [fill_stage]
      exact hreturned
  | take r' =>
      simp only [step] at hstep
      split at hstep <;> cases hstep
      · rename_i hwaiting _
        exact hgoTo s r' _ hreturned (hother r' _ hwaiting (by simp))
      · rename_i hwaiting _
        exact hgoTo s r' _ hreturned (hother r' _ hwaiting (by simp))
  | timeout r' =>
      simp only [step] at hstep
      split at hstep <;> cases hstep
      · rename_i hwaiting _
        exact hgoTo s r' _ hreturned (hother r' _ hwaiting (by simp))
      · rename_i hwaiting _
        exact hgoTo s r' _ hreturned (hother r' _ hwaiting (by simp))

/-- A call goes on to a stage that is pending, or it has no entry. -/
theorem NothingLeft.goTo (h : NothingLeft s) {r : CallId} {stage : Stage}
    (hstage : stage.isPending ∨ ∀ requestId, s.requestWaiters requestId ≠ some r) :
    NothingLeft (s.goTo r stage) := by
  intro requestId r' hr'
  rw [goTo_stage]
  split
  · subst r'
    exact hstage.resolve_right fun hnone => hnone requestId hr'
  · exact h requestId r' hr'

theorem NothingLeft.replaceWaiter (h : NothingLeft s) {requestId : Uuid} {waiter : Option CallId}
    {slot : Slot} (hwaiter : ∀ r, waiter = some r → (s.calls r).stage.isPending) :
    NothingLeft (s.replaceWaiter requestId waiter slot) := by
  intro id r hr
  rw [replaceWaiter_requestWaiters, Function.update_apply] at hr
  rw [replaceWaiter_stage]
  split at hr
  · exact hwaiter r hr
  · exact h id r hr

/-- A step leaves an entry behind exactly when a call gives up that has its sender in the table. -/
theorem nothingLeft_step_iff (hk : Kept s) (h : NothingLeft s) {a : Action}
    (hstep : step decode s a = some s') : NothingLeft s' ↔ InTime s a := by
  -- An entry is under the request id of its call.
  have hentry : ∀ r, s.requestWaiters (s.calls r).requestId ≠ some r →
      ∀ requestId, s.requestWaiters requestId ≠ some r := by
    intro r hne requestId hr
    rw [← (hk.waiting requestId r hr).1] at hr
    exact hne hr
  have hempty : ∀ r requestId, s.requestWaiters requestId = some r → (s.calls r).slot = .empty :=
    fun r requestId hr => (hk.waiting requestId r hr).2.1
  cases a with
  | connect nodeId connection =>
      cases hstep
      exact iff_of_true h trivial
  | disconnect nodeId =>
      cases hstep
      exact iff_of_true h trivial
  | request r nodeId requestId =>
      have hkeeps : ∀ call, (s.calls r).stage = .absent → NothingLeft (s.setCall r call) := by
        intro call habsent id r' hr'
        rw [setCall_calls, if_neg]
        · exact h id r' hr'
        · rintro rfl
          exact (hk.waiting id r' hr').2.2.1 habsent
      simp only [step] at hstep
      split at hstep <;> cases hstep
      · rename_i habsent _
        exact iff_of_true (hkeeps _ habsent) trivial
      · rename_i habsent _
        exact iff_of_true (hkeeps _ habsent) trivial
  | insert r =>
      simp only [step] at hstep
      split at hstep <;> cases hstep
      refine iff_of_true ((h.goTo (.inl rfl)).replaceWaiter ?_) trivial
      rintro _ ⟨⟩
      rw [goTo_stage, if_pos rfl]
      rfl
  | send r sent =>
      simp only [step] at hstep
      split at hstep <;> cases hstep
      refine iff_of_true (h.goTo (.inl ?_)) trivial
      cases sent <;> rfl
  | withdraw r =>
      simp only [step] at hstep
      split at hstep <;> cases hstep
      refine iff_of_true ((h.replaceWaiter fun r' hr' => by cases hr').goTo (.inr ?_)) trivial
      intro requestId hr
      rw [replaceWaiter_requestWaiters, Function.update_apply] at hr
      split at hr
      · cases hr
      · rename_i hne
        exact hne (hk.waiting requestId r hr).1.symm
  | receive connectionId envelope =>
      cases hstep
      refine iff_of_true ?_ trivial
      unfold NodeControl.receiveEnvelope
      split
      · split
        · refine NothingLeft.replaceWaiter ?_ fun r hr => by cases hr
          exact h
        · exact h
      · exact h
  | deliver r =>
      simp only [step] at hstep
      split at hstep <;> cases hstep
      refine iff_of_true (fun requestId r' hr' => ?_) trivial
      rw [fill_stage]
      exact h requestId r' hr'
  | take r =>
      have hkeeps : ∀ stage, (s.calls r).slot ≠ .empty → NothingLeft (s.goTo r stage) :=
        fun stage hslot => h.goTo (.inr fun requestId hr => hslot (hempty r requestId hr))
      simp only [step] at hstep
      split at hstep <;> cases hstep
      · rename_i hslot
        exact iff_of_true (hkeeps _ (by simp [hslot])) trivial
      · rename_i hslot
        exact iff_of_true (hkeeps _ (by simp [hslot])) trivial
  | timeout r =>
      have hleft : ∀ outcome receipt,
          NothingLeft (s.goTo r (.returned outcome receipt)) ↔ InTime s (.timeout r) := by
        intro outcome receipt
        constructor
        · intro hleft hr
          have hpending := hleft _ r hr
          rw [goTo_stage, if_pos rfl] at hpending
          cases hpending
        · exact fun hne => h.goTo (.inr (hentry r hne))
      simp only [step] at hstep
      split at hstep <;> cases hstep
      · exact hleft _ _
      · exact hleft _ _

/-- **A request leaves nothing behind unless its time runs out**: in every run in which no call
gives up while its sender is in the table, the table has entries only for calls that have not
returned, and a step keeps this exactly when it is no such giving up. In every run a call returns
one result at most, one received under its request id, and no two calls consume one message. -/
theorem requests_settle_once (decode : Json → Option RequestResultPayload) :
    (∀ s, Run (step decode) anyStep new s → OwnResult s ∧ ConsumedOnce s ∧
      ∀ s' r outcome receipt, Run (step decode) anyStep s s' →
        (s.calls r).stage = .returned outcome receipt →
        (s'.calls r).stage = .returned outcome receipt) ∧
    ∀ s, Run (step decode) InTime new s → NothingLeft s ∧
      ∀ a s', step decode s a = some s' → (NothingLeft s' ↔ InTime s a) := by
  constructor
  · intro s hrun
    have hkept : Kept s := hrun.invariant kept_step Kept.new
    refine ⟨hkept.ownResult, hkept.consumedOnce, ?_⟩
    intro s' r outcome receipt hrun' hstage
    exact hrun'.invariant (I := fun t => (t.calls r).stage = .returned outcome receipt)
      (fun _ _ _ h _ hstep => returned_step hstep h) hstage
  · intro s hrun
    have hpreserved : Preserved (step decode) InTime Kept :=
      fun t a t' h _ hstep => kept_step t a t' h trivial hstep
    have hkept : Kept s := hrun.invariant hpreserved Kept.new
    have hleft : NothingLeft s := by
      refine hrun.invariant_of hpreserved ?_ Kept.new fun requestId r hr => by cases hr
      exact fun _ _ _ hk h hok hstep => (nothingLeft_step_iff hk h hstep).mpr hok
    exact ⟨hleft, fun a s' hstep => nothingLeft_step_iff hkept hleft hstep⟩

/-- The time of a request to node `1` runs out. -/
def unanswered : List Action :=
  [.connect 1 ⟨5, 6⟩, .request 0 1 9, .insert 0, .send 0 true, .timeout 0]

/-- Its entry stays in the table, and the connection has ended as well. -/
theorem unanswered_left : ∃ s, Run (step fun _ => none) anyStep new s ∧
    s.requestWaiters 9 = some 0 ∧ (s.calls 0).stage = .returned (.error .unavailable) none ∧
      s.active 1 = none ∧ ¬ NothingLeft s := by
  have hrun : ∃ s, runList (step fun _ => none) new (unanswered ++ [.disconnect 1]) = some s ∧
      s.requestWaiters 9 = some 0 ∧ (s.calls 0).stage = .returned (.error .unavailable) none ∧
        s.active 1 = none := ⟨_, rfl, rfl, rfl, rfl⟩
  obtain ⟨s, hs, hentry, hstage, hactive⟩ := hrun
  refine ⟨s, .of_runList _ hs, hentry, hstage, hactive, fun hleft => ?_⟩
  have hpending := hleft 9 0 hentry
  rw [hstage] at hpending
  cases hpending

end NodeControl

end Sulion.Node.Requests
