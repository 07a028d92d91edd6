import Mathlib.Data.List.Basic
import Mathlib.Order.MinMax

set_option autoImplicit false

/-! # Longest common subsequences

How long a common subsequence of two lists can be, by the heads of the lists, and the table that the
dynamic program fills from the ends of the lists.
-/

namespace Sulion.Lib

variable {α : Type}

/-- No common subsequence of the two lists is longer than the number, and one is as long. -/
structure LongestCommon (n : Nat) (xs ys : List α) : Prop where
  reached : ∃ common : List α, common.Sublist xs ∧ common.Sublist ys ∧ common.length = n
  bound : ∀ common : List α, common.Sublist xs → common.Sublist ys → common.length ≤ n

theorem LongestCommon.nil_left (ys : List α) : LongestCommon 0 [] ys where
  reached := ⟨[], List.nil_sublist _, List.nil_sublist _, rfl⟩
  bound _ hx _ := by rw [List.sublist_nil.mp hx, List.length_nil]

theorem LongestCommon.nil_right (xs : List α) : LongestCommon 0 xs [] where
  reached := ⟨[], List.nil_sublist _, List.nil_sublist _, rfl⟩
  bound _ _ hy := by rw [List.sublist_nil.mp hy, List.length_nil]

theorem LongestCommon.unique {m n : Nat} {xs ys : List α} (hm : LongestCommon m xs ys)
    (hn : LongestCommon n xs ys) : m = n := by
  obtain ⟨left, hlx, hly, rfl⟩ := hm.reached
  obtain ⟨right, hrx, hry, rfl⟩ := hn.reached
  exact Nat.le_antisymm (hn.bound left hlx hly) (hm.bound right hrx hry)

/-- Without its head a common subsequence is one of the tails. -/
theorem LongestCommon.cons_same {n : Nat} {xs ys : List α} (a : α) (h : LongestCommon n xs ys) :
    LongestCommon (n + 1) (a :: xs) (a :: ys) where
  reached := by
    obtain ⟨common, hx, hy, hlength⟩ := h.reached
    exact ⟨a :: common, hx.cons_cons a, hy.cons_cons a, by rw [List.length_cons, hlength]⟩
  bound common hx hy := by
    cases common with
    | nil => exact Nat.zero_le _
    | cons c common => exact Nat.succ_le_succ (h.bound common hx.tail hy.tail)

/-- With different heads, one of the two is not used. -/
theorem LongestCommon.cons_ne {m n : Nat} {a b : α} {xs ys : List α} (hne : a ≠ b)
    (hleft : LongestCommon m xs (b :: ys)) (hright : LongestCommon n (a :: xs) ys) :
    LongestCommon (max m n) (a :: xs) (b :: ys) where
  reached := by
    rcases max_choice m n with hmax | hmax
    · obtain ⟨common, hx, hy, hlength⟩ := hleft.reached
      exact ⟨common, hx.cons a, hy, hlength.trans hmax.symm⟩
    · obtain ⟨common, hx, hy, hlength⟩ := hright.reached
      exact ⟨common, hx, hy.cons b, hlength.trans hmax.symm⟩
  bound common hx hy := by
    rcases List.sublist_cons_iff.mp hx with hx' | ⟨common', rfl, -⟩
    · exact (hleft.bound common hx' hy).trans (le_max_left _ _)
    · -- it begins with `a`, and so does not use `b`
      rcases List.sublist_cons_iff.mp hy with hy' | ⟨_, heq, -⟩
      · exact (hright.bound _ hx hy').trans (le_max_right _ _)
      · exact absurd (List.cons.inj heq).1 hne

variable [DecidableEq α]

/-- A row of the table, from the row below it. -/
def commonRow (a : α) : List α → List Nat → List Nat
  | [], _ => [0]
  | b :: bs, below =>
      let rest := commonRow a bs below.tail
      (if a = b then below.tail.headD 0 + 1 else max (below.headD 0) (rest.headD 0)) :: rest

/-- The table: a row for each suffix of the first list, with a cell for each of the second. -/
def commonTable : List α → List α → List (List Nat)
  | [], ys => [List.replicate (ys.length + 1) 0]
  | a :: xs, ys =>
      let below := commonTable xs ys
      commonRow a ys (below.headD []) :: below

/-- Row `i`, column `j`. -/
def cell (table : List (List Nat)) (i j : Nat) : Nat := (table.getD i []).getD j 0

theorem getD_tail (row : List Nat) (j : Nat) : row.tail.getD j 0 = row.getD (j + 1) 0 := by
  cases row <;> rfl

theorem headD_eq (row : List Nat) : row.headD 0 = row.getD 0 0 := by
  cases row <;> rfl

theorem commonRow_spec (a : α) {xs ys : List α} {below : List Nat}
    (h : ∀ j ≤ ys.length, LongestCommon (below.getD j 0) xs (ys.drop j)) (j : Nat)
    (hj : j ≤ ys.length) :
    LongestCommon ((commonRow a ys below).getD j 0) (a :: xs) (ys.drop j) := by
  induction ys generalizing below j with
  | nil =>
      obtain rfl : j = 0 := by simpa using hj
      exact .nil_right _
  | cons b ys ih =>
      have hrest (k : Nat) (hk : k ≤ ys.length) : LongestCommon
          ((commonRow a ys below.tail).getD k 0) (a :: xs) (ys.drop k) := by
        refine ih (fun i hi => ?_) k hk
        rw [getD_tail]
        exact h (i + 1) (Nat.succ_le_succ hi)
      cases j with
      | succ j => exact hrest j (Nat.le_of_succ_le_succ hj)
      | zero =>
          rw [commonRow, List.getD_cons_zero, headD_eq, headD_eq, headD_eq, getD_tail]
          split
          · rename_i heq
            subst heq
            exact (h 1 (by simp)).cons_same a
          · rename_i hne
            exact .cons_ne hne (h 0 (Nat.zero_le _)) (hrest 0 (Nat.zero_le _))

/-- **A cell holds how long a common subsequence of its two suffixes can be.** -/
theorem cell_commonTable (xs ys : List α) (i j : Nat) (hi : i ≤ xs.length) (hj : j ≤ ys.length) :
    LongestCommon (cell (commonTable xs ys) i j) (xs.drop i) (ys.drop j) := by
  induction xs generalizing i j with
  | nil =>
      obtain rfl : i = 0 := by simpa using hi
      have hzero : cell (commonTable [] ys) 0 j = 0 := by
        simp [cell, commonTable, List.getD_eq_getElem?_getD, List.getElem?_replicate]
        split <;> rfl
      rw [hzero]
      exact .nil_left _
  | cons a xs ih =>
      cases i with
      | succ i => exact ih i j (Nat.le_of_succ_le_succ hi) hj
      | zero =>
          refine commonRow_spec a (fun k hk => ?_) j hj
          have hbelow := ih 0 k (Nat.zero_le _) hk
          rwa [cell, ← List.headD_eq_getD] at hbelow

end Sulion.Lib
