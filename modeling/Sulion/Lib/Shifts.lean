import Mathlib.Tactic

set_option autoImplicit false

/-! # Moving one of the places

A list numbered `1..n` in which one element moves from one place to another: the elements between
the two places shift by one towards the place that is left. `shifted` is the new number of an old
one. It is a bijection of the numbers `1..n`, and it keeps the order of all elements but the one
that moves.
-/

namespace Sulion

/-- The new place of the element at `place` when the one at `old` moves to `new`. -/
def shifted (old new place : Int) : Int :=
  if place = old then new
  else if new ≤ place ∧ place < old then place + 1
  else if old < place ∧ place ≤ new then place - 1
  else place

variable {old new a b n : Int}

@[simp] theorem shifted_old : shifted old new old = new := if_pos rfl

theorem shifted_self : shifted old old a = a := by
  unfold shifted
  split_ifs <;> omega

/-- No two elements come to one place. -/
theorem shifted_injective : Function.Injective (shifted old new) := by
  intro a b h
  unfold shifted at h
  split_ifs at h <;> omega

/-- The places stay between `1` and `n`. -/
theorem shifted_bounds (hold : 1 ≤ old ∧ old ≤ n) (hnew : 1 ≤ new ∧ new ≤ n) (ha : 1 ≤ a ∧ a ≤ n) :
    1 ≤ shifted old new a ∧ shifted old new a ≤ n := by
  unfold shifted
  split_ifs <;> omega

/-- **The other elements keep their order.** -/
theorem shifted_lt_iff (ha : a ≠ old) (hb : b ≠ old) :
    shifted old new a < shifted old new b ↔ a < b := by
  unfold shifted
  split_ifs <;> omega

/-- The places `1..n` in order. -/
def placesUpTo (n : Nat) : List Int := (List.range n).map fun i : Nat => (i : Int) + 1

/-- Different places between `1` and the length of their list are all places up to it. -/
theorem perm_placesUpTo {places : List Int} (hnodup : places.Nodup)
    (hbounds : ∀ a ∈ places, 1 ≤ a ∧ a ≤ places.length) :
    places.Perm (placesUpTo places.length) := by
  have hsubset : places ⊆ placesUpTo places.length := by
    intro a ha
    obtain ⟨h0, h1⟩ := hbounds a ha
    exact List.mem_map.mpr ⟨(a - 1).toNat, List.mem_range.mpr (by omega), by omega⟩
  refine (List.subperm_of_subset hnodup hsubset).perm_of_length_le ?_
  simp [placesUpTo]

/-- The next place after `1..n`. -/
theorem max?_placesUpTo {places : List Int} {n : Nat} (h : places.Perm (placesUpTo n)) :
    places.max?.getD 0 = n := by
  cases n with
  | zero =>
      rw [List.perm_nil.mp h]
      rfl
  | succ n =>
      have hmax : places.max? = some ((n + 1 : Nat) : Int) := by
        rw [List.max?_eq_some_iff]
        constructor
        · rw [h.mem_iff]
          exact List.mem_map.mpr ⟨n, List.mem_range.mpr (Nat.lt_succ_self n), by push_cast; rfl⟩
        · intro b hb
          obtain ⟨i, hi, rfl⟩ := List.mem_map.mp (h.mem_iff.mp hb)
          have := List.mem_range.mp hi
          omega
      rw [hmax]
      rfl

end Sulion
