import Sulion.Lib.Table
import Mathlib.Algebra.BigOperators.Group.Finset.Basic
import Mathlib.Algebra.Order.BigOperators.Group.Finset

set_option autoImplicit false
set_option linter.unusedSectionVars false

/-! # Additive rollups with remembered contributions

A ledger keeps, next to a rollup per key, what each member added to it: `post` records a
member's rows and adds them to the rollup, `withdraw` subtracts the recorded rows (clamped
below at zero) and forgets them. The keys are arbitrary, the amounts any ordered lattice
group, such as a row of counters.

`Balanced posted L` says that the rollup is the sum of the contributions of the members in
`posted`, and that nobody else has any. `post` and `withdraw` keep it
(`Balanced.post`, `Balanced.withdraw`), and in a balanced ledger the clamp never changes a
value (`Balanced.withdraw_eq_sub`).
-/

namespace Sulion

open Table

/-- Contributions per member and the rollup they were added to. -/
structure Ledger (S κ V : Type*) [Ord κ] where
  contributions : S → Table κ V
  rollup : Table κ V

namespace Ledger

variable {S κ V : Type*} [DecidableEq S] [Ord κ] [Std.TransOrd κ] [Std.LawfulEqOrd κ]
  [AddCommGroup V] [Lattice V] [IsOrderedAddMonoid V]

/-- The amount under a key; no row counts as zero. -/
def amount (t : Table κ V) (k : κ) : V := t[k]?.getD 0

/-- The ledger with no rows. -/
def empty : Ledger S κ V := ⟨fun _ => ∅, ∅⟩

/-- Record `new` as the contribution of `s` (replacing rows under the same keys) and add all
the rows recorded for `s` to the rollup. -/
def post (L : Ledger S κ V) (s : S) (new : Table κ V) : Ledger S κ V :=
  let mine := merge (fun _ r => r) (L.contributions s) new
  { contributions := Function.update L.contributions s mine
    rollup := merge (· + ·) L.rollup mine }

/-- Subtract the rows recorded for `s` from the rollup, never below zero, and forget them. -/
def withdraw (L : Ledger S κ V) (s : S) : Ledger S κ V :=
  { contributions := Function.update L.contributions s ∅
    rollup := updateFrom (fun r c => (r - c) ⊔ 0) L.rollup (L.contributions s) }

/-- The rollup is the sum over `posted`, whose contributions are nonnegative; nobody else has
contributions; and every contributed key has a row in the rollup. -/
structure Balanced (posted : Finset S) (L : Ledger S κ V) : Prop where
  rollup_eq : ∀ k, amount L.rollup k = ∑ s ∈ posted, amount (L.contributions s) k
  others_empty : ∀ s ∉ posted, L.contributions s = ∅
  nonneg : ∀ s k, 0 ≤ amount (L.contributions s) k

theorem amount_empty (k : κ) : amount (∅ : Table κ V) k = 0 := by simp [amount]

theorem balanced_empty : Balanced ∅ (empty : Ledger S κ V) where
  rollup_eq k := by simp [empty, amount]
  others_empty _ _ := rfl
  nonneg s k := by simp [empty, amount]

theorem amount_merge_add (t new : Table κ V) (k : κ) :
    amount (merge (· + ·) t new) k = amount t k + amount new k := by
  simp only [amount, lookup_merge]
  cases new[k]? <;> cases t[k]? <;> simp

theorem merge_empty_left (new : Table κ V) : merge (fun _ r => r) ∅ new = new := by
  refine Table.ext fun k => ?_
  rw [lookup_merge]
  cases new[k]? <;> simp

theorem sum_update_of_notMem {posted : Finset S} {s : S} (h : s ∉ posted) (f : S → Table κ V)
    (t : Table κ V) (k : κ) :
    ∑ x ∈ posted, amount (Function.update f s t x) k = ∑ x ∈ posted, amount (f x) k := by
  refine Finset.sum_congr rfl fun x hx => ?_
  rw [Function.update_of_ne]
  rintro rfl
  exact h hx

theorem Balanced.post {posted : Finset S} {L : Ledger S κ V} (hL : Balanced posted L) {s : S}
    (hs : s ∉ posted) {new : Table κ V} (hnew : ∀ k, 0 ≤ amount new k) :
    Balanced (insert s posted) (L.post s new) := by
  have hmine : merge (fun _ r => r) (L.contributions s) new = new := by
    rw [hL.others_empty s hs, merge_empty_left]
  refine ⟨fun k => ?_, fun x hx => ?_, fun x k => ?_⟩
  · simp only [Ledger.post, hmine]
    rw [Finset.sum_insert hs, Function.update_self, sum_update_of_notMem hs, amount_merge_add,
      hL.rollup_eq, add_comm]
  · have hne : x ≠ s := fun h => hx (h ▸ Finset.mem_insert_self _ _)
    simp only [Ledger.post, Function.update_of_ne hne]
    exact hL.others_empty x fun h => hx (Finset.mem_insert_of_mem h)
  · simp only [Ledger.post, hmine]
    by_cases hx : x = s
    · rw [hx, Function.update_self]
      exact hnew k
    · rw [Function.update_of_ne hx]
      exact hL.nonneg x k

/-- A posted member's contribution is at most the rollup. -/
theorem Balanced.contribution_le {posted : Finset S} {L : Ledger S κ V} (hL : Balanced posted L)
    {s : S} (hs : s ∈ posted) (k : κ) : amount (L.contributions s) k ≤ amount L.rollup k := by
  rw [hL.rollup_eq]
  exact Finset.single_le_sum (f := fun x => amount (L.contributions x) k)
    (fun x _ => hL.nonneg x k) hs

/-- **The clamp never bites.** In a balanced ledger, withdrawing a posted member is plain
subtraction. -/
theorem Balanced.withdraw_eq_sub {posted : Finset S} {L : Ledger S κ V}
    (hL : Balanced posted L) {s : S} (hs : s ∈ posted) :
    (L.withdraw s).rollup = updateFrom (fun r c => r - c) L.rollup (L.contributions s) := by
  refine Table.ext fun k => ?_
  simp only [withdraw, lookup_updateFrom]
  have hle := hL.contribution_le hs k
  cases hr : L.rollup[k]? with
  | none => rfl
  | some r =>
      cases hc : (L.contributions s)[k]? with
      | none => rfl
      | some c =>
          have hcr : c ≤ r := by simpa [amount, hr, hc] using hle
          simp [sub_nonneg.mpr hcr]

theorem Balanced.amount_withdraw {posted : Finset S} {L : Ledger S κ V}
    (hL : Balanced posted L) {s : S} (hs : s ∈ posted) (k : κ) :
    amount (L.withdraw s).rollup k = amount L.rollup k - amount (L.contributions s) k := by
  rw [hL.withdraw_eq_sub hs]
  have hle := hL.contribution_le hs k
  have hnn := hL.nonneg s k
  simp only [amount, lookup_updateFrom] at hle hnn ⊢
  cases hr : L.rollup[k]? with
  | none =>
      -- No rollup row: the contribution is squeezed to zero.
      have : (L.contributions s)[k]?.getD 0 = 0 := le_antisymm (by simpa [hr] using hle) hnn
      simp [this]
  | some r => cases (L.contributions s)[k]? <;> simp

theorem Balanced.withdraw {posted : Finset S} {L : Ledger S κ V} (hL : Balanced posted L) {s : S}
    (hs : s ∈ posted) : Balanced (posted.erase s) (L.withdraw s) := by
  refine ⟨fun k => ?_, fun x hx => ?_, fun x k => ?_⟩
  · rw [hL.amount_withdraw hs, hL.rollup_eq, ← Finset.add_sum_erase posted _ hs]
    simp only [Ledger.withdraw]
    rw [sum_update_of_notMem (Finset.notMem_erase s posted)]
    abel
  · simp only [Ledger.withdraw]
    by_cases hxs : x = s
    · rw [hxs, Function.update_self]
    · rw [Function.update_of_ne hxs]
      exact hL.others_empty x fun h => hx (Finset.mem_erase.mpr ⟨hxs, h⟩)
  · simp only [Ledger.withdraw]
    by_cases hxs : x = s
    · rw [hxs, Function.update_self, amount_empty]
    · rw [Function.update_of_ne hxs]
      exact hL.nonneg x k

end Ledger

end Sulion
