import Mathlib.Data.Option.Basic

set_option autoImplicit false

/-! # Outcomes of computations that can fail

`Ends runs x Q` is a Hoare triple for a computation `x : Option β`: whatever `x` returns
satisfies `Q`, and `x` returns something if `runs` holds. The condition for success is carried
apart from the result, so that one walk through a sequence of steps gives both.
-/

namespace Sulion

variable {α β : Type*} {runs : Prop} {P : α → Prop} {Q R : β → Prop}

/-- A result of `x` satisfies `Q`, and there is one if `runs`. -/
structure Ends (runs : Prop) (x : Option β) (Q : β → Prop) : Prop where
  post : ∀ b, x = some b → Q b
  succeeds : runs → ∃ b, x = some b

namespace Ends

theorem some {b : β} (hb : Q b) : Ends runs (.some b) Q :=
  ⟨fun _ h => Option.some.inj h ▸ hb, fun _ => ⟨b, rfl⟩⟩

/-- A step that is refused unless `c`. -/
theorem guarded {c : Prop} [Decidable c] {b : β} (hc : runs → c) (hb : c → Q b) :
    Ends runs (if c then Option.some b else none) Q := by
  constructor
  · intro b' h
    split at h
    · rename_i hyes
      cases h
      exact hb hyes
    · cases h
  · intro h
    exact ⟨b, if_pos (hc h)⟩

theorem bind {x : Option α} {f : α → Option β} (hx : Ends runs x P)
    (hf : ∀ a, P a → Ends runs (f a) Q) : Ends runs (x.bind f) Q := by
  constructor
  · intro b h
    obtain ⟨a, ha, hb⟩ := Option.bind_eq_some_iff.mp h
    exact (hf a (hx.post a ha)).post b hb
  · intro h
    obtain ⟨a, ha⟩ := hx.succeeds h
    obtain ⟨b, hb⟩ := (hf a (hx.post a ha)).succeeds h
    exact ⟨b, by rw [ha, Option.bind_some, hb]⟩

theorem map {x : Option α} {f : α → β} (hx : Ends runs x P) (hf : ∀ a, P a → Q (f a)) :
    Ends runs (x.map f) Q := by
  rw [Option.map_eq_bind]
  exact hx.bind fun a ha => .some (hf a ha)

/-- A weaker result under a stronger condition. -/
theorem mono {runs' : Prop} {x : Option β} (hx : Ends runs x Q) (hruns : runs' → runs)
    (hpost : ∀ b, Q b → R b) : Ends runs' x R :=
  ⟨fun b h => hpost b (hx.post b h), fun h => hx.succeeds (hruns h)⟩

end Ends

end Sulion
