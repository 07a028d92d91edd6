import Mathlib.Tactic

set_option autoImplicit false

/-! # Common prefixes of words

Two words of one width agree on their first `n` bits exactly when they are equal under the mask of
those bits, for every `n` up to the width.
-/

namespace Sulion

variable {w n : Nat} {a b : BitVec w}

/-- The words agree on their `n` most significant bits. -/
def AgreeOn (n : Nat) (a b : BitVec w) : Prop := ∀ i < n, a.getMsbD i = b.getMsbD i

/-- The first `n` bits of a word. The shift is by less than the width. -/
def masked (a : BitVec w) (n : Nat) : BitVec w :=
  if n = 0 then 0 else a &&& (BitVec.allOnes w <<< (w - n))

theorem getMsbD_masked (hn : n ≤ w) (i : Nat) :
    (masked a n).getMsbD i = (decide (i < n) && a.getMsbD i) := by
  unfold masked
  by_cases hzero : n = 0
  · rw [if_pos hzero]
    simp [hzero]
  · rw [if_neg hzero, BitVec.getMsbD_and, BitVec.getMsbD_shiftLeft, Bool.and_comm]
    have hones : (BitVec.allOnes w).getMsbD (i + (w - n)) = decide (i < n) := by
      rw [BitVec.getMsbD_allOnes]
      exact decide_eq_decide.mpr (by omega)
    rw [hones]

/-- **Masks compare prefixes.** -/
theorem masked_eq_iff (hn : n ≤ w) : masked a n = masked b n ↔ AgreeOn n a b := by
  constructor
  · intro h i hi
    have hbit := congrArg (fun x : BitVec w => x.getMsbD i) h
    simp only [getMsbD_masked hn, hi, decide_true, Bool.true_and] at hbit
    exact hbit
  · intro h
    refine BitVec.eq_of_getMsbD_eq fun i _ => ?_
    rw [getMsbD_masked hn, getMsbD_masked hn]
    by_cases hi : i < n
    · rw [h i hi]
    · rw [decide_eq_false hi, Bool.false_and, Bool.false_and]

end Sulion
