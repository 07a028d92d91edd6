import Mathlib.Tactic

set_option autoImplicit false

/-! # Runs of a partial transition function

A system is a function `step : σ → α → Option σ`: the label `α` names the actor, the action
and every choice the environment makes, and `none` means that the action is not enabled.
`Run step ok s t` is a run from `s` to `t` all of whose steps satisfy the side condition
`ok` in the state they are taken from. Plain reachability is the case `ok = anyStep`.

The file gives the induction rule for invariants (`Run.invariant`), the same rule carrying
an auxiliary invariant (`Run.invariant_of`), composition of runs, and the list form
`runList`, which evaluates and so produces concrete runs.
-/

namespace Sulion.Transition

variable {σ α : Type*}

/-- The side condition that admits every step. -/
def anyStep : σ → α → Prop := fun _ _ => True

/-- A run of `step` whose every step satisfies `ok` where it is taken. -/
inductive Run (step : σ → α → Option σ) (ok : σ → α → Prop) : σ → σ → Prop
  | refl (s : σ) : Run step ok s s
  | snoc {s t u : σ} {a : α} : Run step ok s t → ok t a → step t a = some u → Run step ok s u

/-- `I` survives every step that satisfies `ok`. -/
def Preserved (step : σ → α → Option σ) (ok : σ → α → Prop) (I : σ → Prop) : Prop :=
  ∀ s a s', I s → ok s a → step s a = some s' → I s'

variable {step : σ → α → Option σ} {ok ok' : σ → α → Prop} {s t u : σ}

/-- **The invariant rule.** A preserved predicate that holds at the start holds in every
state of the run. -/
theorem Run.invariant {I : σ → Prop} (hI : Preserved step ok I) (hrun : Run step ok s t)
    (h0 : I s) : I t := by
  induction hrun with
  | refl => exact h0
  | snoc _ hok hstep ih => exact hI _ _ _ ih hok hstep

/-- The invariant rule relative to an invariant `J` that has already been established. -/
theorem Run.invariant_of {I J : σ → Prop} (hJ : Preserved step ok J)
    (hI : ∀ s a s', J s → I s → ok s a → step s a = some s' → I s')
    (hrun : Run step ok s t) (hJ0 : J s) (h0 : I s) : I t := by
  have both : J t ∧ I t := by
    refine hrun.invariant (I := fun x => J x ∧ I x) ?_ ⟨hJ0, h0⟩
    rintro x a x' ⟨hx, hi⟩ hok hstep
    exact ⟨hJ _ _ _ hx hok hstep, hI _ _ _ hx hi hok hstep⟩
  exact both.2

theorem Run.trans (h1 : Run step ok s t) (h2 : Run step ok t u) : Run step ok s u := by
  induction h2 with
  | refl => exact h1
  | snoc _ hok hstep ih => exact ih.snoc hok hstep

theorem Run.mono (h : ∀ s a, ok s a → ok' s a) (hrun : Run step ok s t) : Run step ok' s t := by
  induction hrun with
  | refl => exact .refl _
  | snoc _ hok hstep ih => exact ih.snoc (h _ _ hok) hstep

/-- Take the listed steps one after the other; `none` when one of them is not enabled. -/
def runList (step : σ → α → Option σ) : σ → List α → Option σ
  | s, [] => some s
  | s, a :: as => (step s a).bind fun s' => runList step s' as

/-- The steps that satisfy a decidable side condition. -/
def restrict (step : σ → α → Option σ) (ok : σ → α → Prop) [∀ s a, Decidable (ok s a)] :
    σ → α → Option σ :=
  fun s a => if ok s a then step s a else none

theorem Run.of_restrict [∀ s a, Decidable (ok s a)] (as : List α)
    (h : runList (restrict step ok) s as = some t) : Run step ok s t := by
  induction as generalizing s with
  | nil =>
      cases h
      exact .refl _
  | cons a as ih =>
      obtain ⟨s', hs, hrest⟩ := Option.bind_eq_some_iff.mp h
      rw [restrict] at hs
      split at hs
      · rename_i hok
        exact ((Run.refl s).snoc hok hs).trans (ih hrest)
      · cases hs

theorem Run.of_runList (as : List α) (h : runList step s as = some t) :
    Run step anyStep s t := by
  induction as generalizing s with
  | nil =>
      cases h
      exact .refl _
  | cons a as ih =>
      obtain ⟨s', hs, hrest⟩ := Option.bind_eq_some_iff.mp h
      exact ((Run.refl s).snoc trivial hs).trans (ih hrest)

/-- The listed steps, all of which are allowed wherever they are taken. -/
theorem Run.of_allowed (as : List α) (hok : ∀ a ∈ as, ∀ s, ok s a)
    (h : runList step s as = some t) : Run step ok s t := by
  induction as generalizing s with
  | nil =>
      cases h
      exact .refl _
  | cons a as ih =>
      obtain ⟨s', hs, hrest⟩ := Option.bind_eq_some_iff.mp h
      have hrun := ih (fun a' ha' => hok a' (List.mem_cons_of_mem _ ha')) hrest
      exact ((Run.refl s).snoc (hok a List.mem_cons_self s) hs).trans hrun

end Sulion.Transition
