import Mathlib.Tactic

set_option autoImplicit false

/-! # Computations that stop at the first error

`Yields x Q` says that what the computation `x : Except ε α` returns satisfies `Q`; nothing is
said of a computation that stops with an error, which leaves no trace. `require` is the check
that stops the computation.
-/

namespace Sulion

variable {ε α β σ : Type}

/-- Stop with an error unless the condition holds. -/
def require (c : Bool) (error : ε) : Except ε Unit := if c then .ok () else .error error

/-- A guard that was passed. -/
theorem ok_of_guard {c : Prop} [Decidable c] {e : ε} {x : Except ε α} {a : α}
    (h : (if c then .error e else x) = .ok a) : ¬ c ∧ x = .ok a := by
  by_cases hc : c
  · rw [if_pos hc] at h
    cases h
  · rw [if_neg hc] at h
    exact ⟨hc, h⟩

/-- What `x` returns satisfies `Q`. -/
def Yields (x : Except ε α) (Q : α → Prop) : Prop := ∀ a, x = .ok a → Q a

namespace Yields

variable {x : Except ε α} {f : α → Except ε β} {P : α → Prop} {Q R : β → Prop} {b : β}

theorem pure (hb : Q b) : Yields (Pure.pure b : Except ε β) Q :=
  fun _ h => Except.ok.inj h ▸ hb

theorem ok (hb : Q b) : Yields (.ok b : Except ε β) Q := fun _ h => Except.ok.inj h ▸ hb

theorem error {e : ε} : Yields (.error e : Except ε β) Q := fun _ h => by cases h

/-- One computation after another. -/
theorem bind (hx : Yields x P) (hf : ∀ a, P a → Yields (f a) Q) : Yields (x >>= f) Q := by
  intro b h
  cases hxa : x with
  | error e =>
      rw [hxa] at h
      cases h
  | ok a =>
      rw [hxa] at h
      exact hf a (hx a hxa) b h

/-- A computation whose result does not matter. -/
theorem skip (hf : ∀ a, Yields (f a) Q) : Yields (x >>= f) Q :=
  bind (P := fun _ => True) (fun _ _ => trivial) fun a _ => hf a

/-- After a check. -/
theorem require {c : Bool} {e : ε} {f : Unit → Except ε β} (hf : c → Yields (f ()) Q) :
    Yields (Sulion.require c e >>= f) Q := by
  cases c with
  | false => exact error
  | true => exact hf rfl

theorem mono {x : Except ε β} (hx : Yields x Q) (h : ∀ b, Q b → R b) : Yields x R :=
  fun b hb => h b (hx b hb)

theorem ite {c : Prop} [Decidable c] {x y : Except ε β} (hx : c → Yields x Q)
    (hy : ¬ c → Yields y Q) : Yields (if c then x else y) Q := by
  split
  · rename_i h
    exact hx h
  · rename_i h
    exact hy h

/-- A loop keeps what each turn of it keeps. -/
theorem foldlM {I : σ → Prop} {step : σ → α → Except ε σ} {l : List α} {s : σ} (hs : I s)
    (hstep : ∀ s, ∀ a ∈ l, I s → Yields (step s a) I) : Yields (l.foldlM step s) I := by
  induction l generalizing s with
  | nil => exact pure hs
  | cons a l ih =>
      rw [List.foldlM_cons]
      refine bind (hstep s a (List.mem_cons_self ..) hs) ?_
      intro s' hs'
      exact ih hs' fun s b hb => hstep s b (List.mem_cons_of_mem _ hb)

/-- What each element of a list returns. -/
theorem mapM {f : α → Except ε β} {l : List α} (h : ∀ a ∈ l, Yields (f a) Q) :
    Yields (l.mapM f) fun out => ∀ b ∈ out, Q b := by
  induction l with
  | nil => exact pure (by simp)
  | cons a l ih =>
      rw [List.mapM_cons]
      refine bind (h a (List.mem_cons_self ..)) fun b hb => ?_
      refine bind (ih fun a ha => h a (List.mem_cons_of_mem _ ha)) fun out hout => pure ?_
      rintro b' hb'
      rcases List.mem_cons.mp hb' with rfl | hb'
      · exact hb
      · exact hout b' hb'

end Yields

end Sulion
