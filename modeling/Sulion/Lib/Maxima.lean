import Mathlib.Data.List.Sort
import Mathlib.Order.Basic

set_option autoImplicit false

/-! # The elements of greatest rank

`maxima rank l` are the elements of a list that no other one outranks, with their repetitions.
They do not depend on the order of the list, and where a list is read by falling rank they are
found as they come: the next element joins them unless one of them outranks it.
-/

namespace Sulion.Maxima

variable {α ρ : Type*} [LinearOrder ρ] (rank : α → ρ)

/-- The elements of greatest rank. -/
def maxima (l : List α) : List α := l.filter fun a => decide (∀ b ∈ l, rank b ≤ rank a)

variable {rank} {l l' : List α} {a b : α}

theorem mem_maxima : a ∈ maxima rank l ↔ a ∈ l ∧ ∀ b ∈ l, rank b ≤ rank a := by
  rw [maxima, List.mem_filter, decide_eq_true_iff]

/-- The order of the list does not matter. -/
theorem maxima_perm (h : l.Perm l') : (maxima rank l).Perm (maxima rank l') := by
  unfold maxima
  have hcongr : (fun a => decide (∀ b ∈ l, rank b ≤ rank a)) =
      fun a => decide (∀ b ∈ l', rank b ≤ rank a) := by
    funext a
    exact decide_eq_decide.mpr (forall_congr' fun b => by rw [h.mem_iff])
  rw [hcongr]
  exact h.filter _

/-- Ranks that are read off an image can be compared there. -/
theorem map_maxima {β : Type*} (rank : α → ρ) (f : β → α) (l : List β) :
    (maxima (fun b => rank (f b)) l).map f = maxima rank (l.map f) := by
  unfold maxima
  rw [List.filter_map]
  congr 1
  refine List.filter_congr fun b _ => ?_
  simp

theorem maxima_ne_nil (h : l ≠ []) : maxima rank l ≠ [] := by
  induction l with
  | nil => exact absurd rfl h
  | cons a l ih =>
      by_cases hl : l = []
      · subst hl
        exact List.ne_nil_of_mem (mem_maxima.mpr ⟨List.mem_singleton_self a, by simp⟩)
      · obtain ⟨b, hb⟩ := List.exists_mem_of_ne_nil _ (ih hl)
        obtain ⟨hmem, hmax⟩ := mem_maxima.mp hb
        rcases le_total (rank a) (rank b) with hab | hba
        · refine List.ne_nil_of_mem (mem_maxima.mpr ⟨List.mem_cons_of_mem a hmem, ?_⟩)
          exact List.forall_mem_cons.mpr ⟨hab, hmax⟩
        · refine List.ne_nil_of_mem (mem_maxima.mpr ⟨List.mem_cons_self, ?_⟩)
          exact List.forall_mem_cons.mpr ⟨le_rfl, fun c hc => (hmax c hc).trans hba⟩

/-- A further element that is outranked changes nothing. -/
theorem maxima_concat_of_lt (hb : b ∈ maxima rank l) (hab : rank a < rank b) :
    maxima rank (l ++ [a]) = maxima rank l := by
  obtain ⟨hmem, hmax⟩ := mem_maxima.mp hb
  have hlast : ¬ ∀ c ∈ l ++ [a], rank c ≤ rank a := fun h =>
    absurd (h b (List.mem_append_left _ hmem)) (not_le.mpr hab)
  rw [maxima, List.filter_append, List.filter_cons_of_neg (by simpa using hlast), List.filter_nil,
    List.append_nil]
  refine List.filter_congr fun c hc => decide_eq_decide.mpr ?_
  constructor
  · intro h d hd
    exact h d (List.mem_append_left _ hd)
  · intro h d hd
    rcases List.mem_append.mp hd with hd | hd
    · exact h d hd
    · cases List.mem_singleton.mp hd
      exact hab.le.trans (h b hmem)

/-- A further element that nothing outranks, and that outranks nothing, joins them. -/
theorem maxima_concat_of_eq (h : ∀ b ∈ l, rank b = rank a) :
    maxima rank (l ++ [a]) = maxima rank l ++ [a] := by
  have hall : ∀ b ∈ l ++ [a], rank b = rank a := by
    intro b hb
    rcases List.mem_append.mp hb with hb | hb
    · exact h b hb
    · rw [List.mem_singleton.mp hb]
  have hkeep : maxima rank (l ++ [a]) = l ++ [a] := by
    refine List.filter_eq_self.mpr fun b hb => decide_eq_true fun c hc => ?_
    rw [hall b hb, hall c hc]
  have hkeep' : maxima rank l = l := by
    refine List.filter_eq_self.mpr fun b hb => decide_eq_true fun c hc => ?_
    rw [h b hb, h c hc]
  rw [hkeep, hkeep']

end Sulion.Maxima
