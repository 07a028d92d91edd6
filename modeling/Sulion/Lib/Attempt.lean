import Mathlib.Tactic

set_option autoImplicit false

/-! # Computations that stop at an error and leave their state

An `Attempt` changes a state step by step and can stop: what it has done until then stays done.
`Leads P x Q E` is the Hoare triple of such a computation: from a state with `P` it returns with `Q`
or stops with `E`.
-/

namespace Sulion

/-- A computation that returns a value or stops, and leaves a state either way. -/
def Attempt (σ α : Type) : Type := σ → Except Unit α × σ

namespace Attempt

variable {σ α β : Type}

protected def pure (a : α) : Attempt σ α := fun s => (.ok a, s)

protected def bind (x : Attempt σ α) (f : α → Attempt σ β) : Attempt σ β := fun s =>
  match x s with
  | (.ok a, t) => f a t
  | (.error e, t) => (.error e, t)

instance : Monad (Attempt σ) where
  pure := Attempt.pure
  bind := Attempt.bind

protected def fail : Attempt σ α := fun s => (.error (), s)

/-- Look at the state. -/
def look (f : σ → α) : Attempt σ α := fun s => (.ok (f s), s)

def change (f : σ → σ) : Attempt σ Unit := fun s => (.ok (), f s)

/-- Go through a list. -/
def each (f : β → Attempt σ Unit) : List β → Attempt σ Unit
  | [] => Attempt.pure ()
  | b :: rest => Attempt.bind (f b) fun _ => each f rest

/-- When `x` stops, `handler` goes on with what it left. -/
def rescue (x handler : Attempt σ α) : Attempt σ α := fun s =>
  match x s with
  | (.ok a, t) => (.ok a, t)
  | (.error _, t) => handler t

/-- The outcome of `x` as a value. -/
def outcome (x : Attempt σ α) : Attempt σ (Except Unit α) := fun s => (.ok (x s).1, (x s).2)

/-- Return or stop, as an earlier outcome says. -/
def ofOutcome (r : Except Unit α) : Attempt σ α := fun s => (r, s)

theorem bind_of_ok {x : Attempt σ α} {f : α → Attempt σ β} {s t : σ} {a : α}
    (h : x s = (.ok a, t)) : (x >>= f) s = f a t := by
  show Attempt.bind x f s = f a t
  rw [Attempt.bind, h]

theorem bind_of_error {x : Attempt σ α} {f : α → Attempt σ β} {s t : σ}
    (h : x s = (.error (), t)) : (x >>= f) s = (.error (), t) := by
  show Attempt.bind x f s = (.error (), t)
  rw [Attempt.bind, h]

theorem rescue_of_ok {x handler : Attempt σ α} {s t : σ} {a : α} (h : x s = (.ok a, t)) :
    x.rescue handler s = (.ok a, t) := by
  rw [rescue, h]

theorem rescue_of_error {x handler : Attempt σ α} {s t : σ} (h : x s = (.error (), t)) :
    x.rescue handler s = handler t := by
  rw [rescue, h]

@[simp] theorem pure_apply (a : α) (s : σ) : (pure a : Attempt σ α) s = (.ok a, s) := rfl

@[simp] theorem fail_apply (s : σ) : (Attempt.fail : Attempt σ α) s = (.error (), s) := rfl

@[simp] theorem look_apply (f : σ → α) (s : σ) : look f s = (.ok (f s), s) := rfl

@[simp] theorem change_apply (f : σ → σ) (s : σ) : change f s = (.ok (), f s) := rfl

/-- From `P` the computation returns with `Q`, or stops with `E`. -/
def Leads (P : σ → Prop) (x : Attempt σ α) (Q : α → σ → Prop) (E : σ → Prop) : Prop :=
  ∀ s, P s →
    match x s with
    | (.ok a, t) => Q a t
    | (.error _, t) => E t

/-- A condition that the computation keeps, also when it stops. -/
abbrev Keeps (I : σ → Prop) (x : Attempt σ α) : Prop := Leads I x (fun _ => I) I

namespace Leads

variable {P P' : σ → Prop} {x handler : Attempt σ α} {f : α → Attempt σ β} {Q Q' : α → σ → Prop}
  {R : β → σ → Prop} {E E' : σ → Prop}

theorem of_ok (h : ∀ s, P s → ∃ a t, x s = (.ok a, t) ∧ Q a t) : Leads P x Q E := by
  intro s hs
  obtain ⟨a, t, hrun, hpost⟩ := h s hs
  rw [hrun]
  exact hpost

/-- What does not depend on the state can be assumed. -/
theorem of_fact {p : Prop} (h : p → Leads P x Q E) : Leads (fun s => P s ∧ p) x Q E :=
  fun s hs => h hs.2 s hs.1

theorem pure {a : α} (h : ∀ s, P s → Q a s) : Leads P (Pure.pure a : Attempt σ α) Q E := h

theorem fail (h : ∀ s, P s → E s) : Leads P (Attempt.fail : Attempt σ α) Q E := h

theorem look {g : σ → α} (h : ∀ s, P s → Q (g s) s) : Leads P (Attempt.look g) Q E := h

theorem change {g : σ → σ} {Q : Unit → σ → Prop} (h : ∀ s, P s → Q () (g s)) :
    Leads P (Attempt.change g) Q E := h

theorem bind (hx : Leads P x Q E) (hf : ∀ a, Leads (Q a) (f a) R E) : Leads P (x >>= f) R E := by
  intro s hs
  have hstep := hx s hs
  show match Attempt.bind x f s with
    | (.ok b, t) => R b t
    | (.error _, t) => E t
  rw [Attempt.bind]
  cases hrun : x s with
  | mk r t =>
      rw [hrun] at hstep
      cases r with
      | ok a => exact hf a t hstep
      | error e => exact hstep

/-- Going through a list: `I` says what holds with the rest still to come. -/
theorem each {f : β → Attempt σ Unit} {I : List β → σ → Prop}
    (h : ∀ b rest, Leads (I (b :: rest)) (f b) (fun _ => I rest) E) (l : List β) :
    Leads (I l) (Attempt.each f l) (fun _ => I []) E := by
  induction l with
  | nil => exact fun s hs => hs
  | cons b rest ih => exact Leads.bind (h b rest) fun _ => ih

theorem mono (h : Leads P x Q E) (hpre : ∀ s, P' s → P s) (hpost : ∀ a s, Q a s → Q' a s)
    (herror : ∀ s, E s → E' s) : Leads P' x Q' E' := by
  intro s hs
  have hstep := h s (hpre s hs)
  cases hrun : x s with
  | mk r t =>
      rw [hrun] at hstep
      cases r with
      | ok a => exact hpost a t hstep
      | error e => exact herror t hstep

theorem rescue (hx : Leads P x Q E) (hhandler : Leads E handler Q E') :
    Leads P (x.rescue handler) Q E' := by
  intro s hs
  have hstep := hx s hs
  rw [Attempt.rescue]
  cases hrun : x s with
  | mk r t =>
      rw [hrun] at hstep
      cases r with
      | ok a => exact hstep
      | error e => exact hhandler t hstep

/-- With the same condition after returning and after stopping the outcome does not matter. -/
theorem outcome {I : σ → Prop} (hx : Leads P x (fun _ => I) I) :
    Leads P x.outcome (fun _ => I) E := by
  intro s hs
  have hstep := hx s hs
  show I (x s).2
  cases hrun : x s with
  | mk r t =>
      rw [hrun] at hstep
      cases r <;> exact hstep

theorem ofOutcome {I : σ → Prop} (r : Except Unit α) : Keeps I (Attempt.ofOutcome r) := by
  intro s hs
  cases r <;> exact hs

/-- What holds either way holds of the state left. -/
theorem left {I : σ → Prop} (hx : Leads P x (fun _ => I) I) {s : σ} (hs : P s) : I (x s).2 := by
  have hstep := hx s hs
  cases hrun : x s with
  | mk r t =>
      rw [hrun] at hstep
      cases r <;> exact hstep

end Leads

end Attempt

end Sulion
