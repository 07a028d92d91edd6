import Mathlib.Tactic
import Mathlib.Data.List.MinMax

set_option autoImplicit false

/-! # One row for each key

`SELECT DISTINCT ON (key) … ORDER BY key, rank`: of the rows that share a key, one whose rank is
least. Rows of equal rank are in the order of the list.
-/

namespace Sulion

variable {α κ ρ : Type*} [DecidableEq κ] [LinearOrder ρ]

/-- `SELECT DISTINCT ON (key) … ORDER BY key, rank`. -/
def distinctOn (key : α → κ) (rank : α → ρ) (rows : List α) : List α :=
  (rows.map key).dedup.filterMap fun k => (rows.filter fun r => decide (key r = k)).argmin rank

variable {key : α → κ} {rank : α → ρ} {rows : List α} {a b : α}

/-- A selected row is the first of its key. -/
theorem mem_distinctOn_iff : a ∈ distinctOn key rank rows ↔
    (rows.filter fun r => decide (key r = key a)).argmin rank = some a := by
  unfold distinctOn
  rw [List.mem_filterMap]
  constructor
  · rintro ⟨k, _, hk⟩
    have hmem := List.argmin_mem (Option.mem_def.mpr hk)
    have hkey : key a = k := by simpa using (List.mem_filter.mp hmem).2
    rw [hkey]
    exact hk
  · intro h
    have hmem := List.argmin_mem (Option.mem_def.mpr h)
    refine ⟨key a, ?_, h⟩
    rw [List.mem_dedup]
    exact List.mem_map_of_mem (List.mem_filter.mp hmem).1

theorem mem_of_mem_distinctOn (h : a ∈ distinctOn key rank rows) : a ∈ rows := by
  have hmem := List.argmin_mem (Option.mem_def.mpr (mem_distinctOn_iff.mp h))
  exact (List.mem_filter.mp hmem).1

/-- In a list whose keys are distinct a row is known by its key. -/
theorem eq_of_pairwise_ne (h : rows.Pairwise fun a b => key a ≠ key b) (ha : a ∈ rows)
    (hb : b ∈ rows) (hkey : key a = key b) : a = b :=
  List.inj_on_of_nodup_map (List.pairwise_map.mpr h) ha hb hkey

/-- **One row for each key.** -/
theorem eq_of_mem_distinctOn (ha : a ∈ distinctOn key rank rows)
    (hb : b ∈ distinctOn key rank rows) (hkey : key a = key b) : a = b := by
  have ha := mem_distinctOn_iff.mp ha
  have hb := mem_distinctOn_iff.mp hb
  rw [hkey, hb] at ha
  exact (Option.some.inj ha).symm

theorem pairwise_distinctOn : (distinctOn key rank rows).Pairwise fun a b => key a ≠ key b := by
  unfold distinctOn
  rw [List.pairwise_filterMap]
  refine (List.nodup_dedup (rows.map key)).imp ?_
  intro k k' hne a ha b hb heq
  have hak : key a = k := by simpa using (List.mem_filter.mp (List.argmin_mem ha)).2
  have hbk : key b = k' := by simpa using (List.mem_filter.mp (List.argmin_mem hb)).2
  exact hne (hak.symm.trans (heq.trans hbk))

/-- **Every key has its row**, of least rank. -/
theorem exists_mem_distinctOn (h : b ∈ rows) :
    ∃ a ∈ distinctOn key rank rows, key a = key b ∧ rank a ≤ rank b := by
  have hmem : b ∈ rows.filter fun r => decide (key r = key b) :=
    List.mem_filter.mpr ⟨h, by simp⟩
  cases hmin : (rows.filter fun r => decide (key r = key b)).argmin rank with
  | none =>
      rw [List.argmin_eq_none] at hmin
      rw [hmin] at hmem
      cases hmem
  | some a =>
      have hkey : key a = key b := by
        simpa using (List.mem_filter.mp (List.argmin_mem (Option.mem_def.mpr hmin))).2
      refine ⟨a, ?_, hkey, List.le_of_mem_argmin hmem (Option.mem_def.mpr hmin)⟩
      rw [mem_distinctOn_iff, hkey]
      exact hmin

end Sulion
