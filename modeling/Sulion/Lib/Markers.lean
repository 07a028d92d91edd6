import Sulion.Lib.Transition
import Mathlib.Order.Monotone.Basic

set_option autoImplicit false

/-! # Change markers

A marker stands for a content that a reader fetches again only when the marker has changed. When
no step lowers the marker, and each step that changes the content raises it, two moments of a run
with one marker have one content (`Run.content_eq_of_marker_eq`).
-/

namespace Sulion.Transition

variable {σ α μ γ : Type*} [PartialOrder μ]

/-- From `s` to `t` the marker does not fall, and it rises when the content changes. -/
def Marked (marker : σ → μ) (content : σ → γ) (s t : σ) : Prop :=
  marker s ≤ marker t ∧ (content s ≠ content t → marker s < marker t)

variable {marker : σ → μ} {content : σ → γ} {s t u : σ}

theorem Marked.of_eq (hmarker : marker s = marker t) (hcontent : content s = content t) :
    Marked marker content s t :=
  ⟨hmarker.le, fun hne => absurd hcontent hne⟩

theorem Marked.of_le (hmarker : marker s ≤ marker t) (hcontent : content s = content t) :
    Marked marker content s t :=
  ⟨hmarker, fun hne => absurd hcontent hne⟩

theorem Marked.of_lt (h : marker s < marker t) : Marked marker content s t := ⟨h.le, fun _ => h⟩

theorem Marked.trans (h : Marked marker content s t) (h' : Marked marker content t u) :
    Marked marker content s u := by
  refine ⟨h.1.trans h'.1, ?_⟩
  intro hne
  by_cases hfirst : content s = content t
  · exact h.1.trans_lt (h'.2 (hfirst ▸ hne))
  · exact (h.2 hfirst).trans_le h'.1

/-- **An equal marker hides nothing.** -/
theorem Run.content_eq_of_marker_eq {step : σ → α → Option σ} {ok : σ → α → Prop}
    (hstep : ∀ s a t, ok s a → step s a = some t → Marked marker content s t)
    (hrun : Run step ok s t) (heq : marker s = marker t) : content s = content t := by
  have hmarked : Marked marker content s t := by
    clear heq
    induction hrun with
    | refl => exact .of_eq rfl rfl
    | snoc _ hok htaken ih => exact ih.trans (hstep _ _ _ hok htaken)
  by_contra hne
  exact (hmarked.2 hne).ne heq

end Sulion.Transition
