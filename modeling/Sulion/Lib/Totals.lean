import Sulion.Lib.WriteBack
import Mathlib.Algebra.BigOperators.Group.List.Basic

set_option autoImplicit false
set_option linter.unusedSectionVars false

/-! # Sums over the rows of a table

`total f t` is the sum of `f` over the rows of `t`. What inserting a new row and modifying a
row do to it is proved from the entries of the table, up to their order.
-/

namespace Sulion.Table

variable {κ ρ M : Type*} [Ord κ] [Std.TransOrd κ] [Std.LawfulEqOrd κ] [DecidableEq κ]

/-- The sum of `f` over the rows. -/
def total [AddCommMonoid M] (f : ρ → M) (t : Table κ ρ) : M := ((rows t).map f).sum

theorem nodup_toList (t : Table κ ρ) : t.toList.Nodup := (nodup_keys t).of_map

theorem toList_insert_perm {t : Table κ ρ} {k : κ} (h : t[k]? = none) (r : ρ) :
    (t.insert k r).toList.Perm ((k, r) :: t.toList) := by
  have hnotin : (k, r) ∉ t.toList := by
    intro hmem
    rw [Std.ExtTreeMap.mem_toList_iff_getElem?_eq_some, h] at hmem
    cases hmem
  rw [List.perm_ext_iff_of_nodup (nodup_toList _) (List.nodup_cons.mpr ⟨hnotin, nodup_toList t⟩)]
  rintro ⟨k', r'⟩
  rw [List.mem_cons, Std.ExtTreeMap.mem_toList_iff_getElem?_eq_some,
    Std.ExtTreeMap.mem_toList_iff_getElem?_eq_some, lookup_insert]
  by_cases hk : k = k'
  · subst hk
    simp [h, eq_comm]
  · simp [hk, Ne.symm hk]

theorem toList_perm_erase {t : Table κ ρ} {k : κ} {r : ρ} (h : t[k]? = some r) :
    t.toList.Perm ((k, r) :: (t.erase k).toList) := by
  have hlookup (k' : κ) : ((t.erase k).insert k r)[k']? = t[k']? := by
    rw [lookup_insert]
    by_cases hk : k = k'
    · rw [if_pos hk, ← hk, h]
    · simp [hk, Std.ExtTreeMap.getElem?_erase]
  have heq : (t.erase k).insert k r = t := Table.ext hlookup
  have hperm := toList_insert_perm (t := t.erase k) (k := k) (by simp) r
  rwa [heq] at hperm

theorem erase_modify (t : Table κ ρ) (k : κ) (f : ρ → ρ) : (t.modify k f).erase k = t.erase k := by
  apply Table.ext
  intro k'
  rw [Std.ExtTreeMap.getElem?_erase, Std.ExtTreeMap.getElem?_erase, lookup_modify]
  by_cases hk : k = k'
  · simp [hk]
  · simp [hk]

variable [AddCommMonoid M] (f : ρ → M)

theorem total_eq_sum (t : Table κ ρ) : total f t = (t.toList.map fun kr => f kr.2).sum := by
  rw [total, rows, List.map_map]
  rfl

@[simp] theorem total_empty : total f (∅ : Table κ ρ) = 0 := by
  have hnil : (∅ : Table κ ρ).toList = [] := Std.ExtTreeMap.toList_eq_nil_iff.mpr rfl
  rw [total_eq_sum, hnil]
  rfl

theorem total_insert {t : Table κ ρ} {k : κ} (h : t[k]? = none) (r : ρ) :
    total f (t.insert k r) = f r + total f t := by
  rw [total_eq_sum, total_eq_sum, ((toList_insert_perm h r).map _).sum_eq]
  rfl

theorem total_eq_add_erase {t : Table κ ρ} {k : κ} {r : ρ} (h : t[k]? = some r) :
    total f t = f r + total f (t.erase k) := by
  rw [total_eq_sum, total_eq_sum, ((toList_perm_erase h).map _).sum_eq]
  rfl

/-- A row that takes the place of another exchanges its term. -/
theorem total_insert_add {t : Table κ ρ} {k : κ} {r : ρ} (h : t[k]? = some r) (r' : ρ) :
    total f (t.insert k r') + f r = total f t + f r' := by
  have hnew : (t.insert k r')[k]? = some r' := by rw [lookup_insert, if_pos rfl]
  have herase : (t.insert k r').erase k = t.erase k := by
    apply Table.ext
    intro k'
    rw [Std.ExtTreeMap.getElem?_erase, Std.ExtTreeMap.getElem?_erase, lookup_insert]
    by_cases hk : k = k'
    · simp [hk]
    · simp [hk]
  rw [total_eq_add_erase f hnew, total_eq_add_erase f h, herase]
  exact add_right_comm _ _ _ |>.trans (by rw [add_comm (f r'), add_right_comm])

/-- Modifying a row exchanges its term. -/
theorem total_modify {t : Table κ ρ} {k : κ} {r : ρ} (h : t[k]? = some r) (g : ρ → ρ) :
    total f (t.modify k g) + f r = total f t + f (g r) := by
  have hmod : (t.modify k g)[k]? = some (g r) := by rw [lookup_modify, if_pos rfl, h]; rfl
  rw [total_eq_add_erase f hmod, total_eq_add_erase f h, erase_modify]
  exact add_right_comm _ _ _ |>.trans (by rw [add_comm (f (g r)), add_right_comm])

/-- A modification that keeps every term keeps the sum. -/
theorem total_modify_of_eq (t : Table κ ρ) (k : κ) {g : ρ → ρ} (hg : ∀ r, f (g r) = f r) :
    total f (t.modify k g) = total f t := by
  cases h : t[k]? with
  | none =>
      have hsame : t.modify k g = t := by
        apply Table.ext
        intro k'
        rw [lookup_modify]
        by_cases hk : k = k'
        · rw [if_pos hk, h, ← hk, h]
          rfl
        · rw [if_neg hk]
      rw [hsame]
  | some r =>
      have hmod : (t.modify k g)[k]? = some (g r) := by rw [lookup_modify, if_pos rfl, h]; rfl
      rw [total_eq_add_erase f hmod, total_eq_add_erase f h, erase_modify, hg]

/-- Rewriting rows so that every term is kept keeps the sum. -/
theorem total_map_of_eq (t : Table κ ρ) {g : κ → ρ → ρ}
    (hg : ∀ (k : κ) (r : ρ), t[k]? = some r → f (g k r) = f r) : total f (t.map g) = total f t := by
  rw [total_eq_sum, total_eq_sum, Std.ExtTreeMap.toList_map, List.map_map]
  congr 1
  apply List.map_congr_left
  rintro ⟨k, r⟩ hmem
  exact hg k r (Std.ExtTreeMap.mem_toList_iff_getElem?_eq_some.mp hmem)

section Ordered

variable {N : Type*} [AddCommMonoid N] [PartialOrder N] [IsOrderedCancelAddMonoid N] {g h : ρ → N}

/-- Terms that do not fall keep the sum from falling. -/
theorem total_le_total (t : Table κ ρ) (hle : ∀ (k : κ) (r : ρ), t[k]? = some r → g r ≤ h r) :
    total g t ≤ total h t := by
  apply List.sum_le_sum
  intro r hr
  obtain ⟨k, hk⟩ := mem_rows.mp hr
  exact hle k r hk

/-- A term that rises lets the sum rise. -/
theorem total_lt_total {t : Table κ ρ} {k : κ} {r : ρ} (hk : t[k]? = some r) (hlt : g r < h r)
    (hle : ∀ (k : κ) (r : ρ), t[k]? = some r → g r ≤ h r) : total g t < total h t := by
  have hrest : total g (t.erase k) ≤ total h (t.erase k) := by
    apply total_le_total
    intro k' r' hk'
    rw [Std.ExtTreeMap.getElem?_erase] at hk'
    split at hk'
    · cases hk'
    · exact hle k' r' hk'
  rw [total_eq_add_erase g hk, total_eq_add_erase h hk]
  exact add_lt_add_of_lt_of_le hlt hrest

end Ordered

/-- The number of rows is the sum of ones. -/
theorem length_rows (t : Table κ ρ) : (rows t).length = total (fun _ => 1) t := by
  rw [total, List.map_const', List.sum_replicate, smul_eq_mul, mul_one]

end Sulion.Table
