import Mathlib.Tactic

set_option autoImplicit false

/-! # Lists cut at marks

`sections` gives every marked item of a list with the items behind it up to the next mark. What
stands in front of the first mark belongs to no section.

A reader that opens a section at a mark and closes it at the next one depends on nothing before
the mark: the sections of a list cut in front of a mark are those of its two parts.
-/

namespace Sulion.Sections

variable {α : Type*} (mark : α → Bool)

/-- The unmarked items that a list starts with. -/
def front (items : List α) : List α := items.takeWhile fun item => !mark item

/-- The marked items, each with the unmarked ones behind it. -/
def sections : List α → List (α × List α)
  | [] => []
  | item :: items =>
      if mark item then (item, front mark items) :: sections items else sections items

/-- The list ends here, or goes on with a mark. -/
def AtMark (items : List α) : Prop := ∀ item ∈ items.head?, mark item = true

variable {mark} {item : α} {items before after : List α}

@[simp] theorem front_nil : front mark [] = [] := rfl

theorem front_of_mark (h : mark item = true) : front mark (item :: items) = [] := by
  simp [front, h]

theorem front_of_unmarked (h : mark item = false) :
    front mark (item :: items) = item :: front mark items := by
  simp [front, h]

@[simp] theorem sections_nil : sections mark [] = [] := rfl

theorem sections_of_mark (h : mark item = true) :
    sections mark (item :: items) = (item, front mark items) :: sections mark items := by
  rw [sections, if_pos h]

theorem sections_of_unmarked (h : mark item = false) :
    sections mark (item :: items) = sections mark items := by
  rw [sections, if_neg (by rw [h]; exact Bool.false_ne_true)]

/-- A list that starts with a mark adds nothing to what is in front of it. -/
theorem front_append (h : AtMark mark after) :
    front mark (before ++ after) = front mark before := by
  induction before with
  | nil =>
      cases after with
      | nil => rfl
      | cons next rest =>
          show front mark (next :: rest) = []
          exact front_of_mark (h next (by simp))
  | cons x before ih =>
      rw [List.cons_append]
      by_cases hx : mark x = true
      · rw [front_of_mark hx, front_of_mark hx]
      · have hx' : mark x = false := by simpa using hx
        rw [front_of_unmarked hx', front_of_unmarked hx', ih]

/-- **A cut in front of a mark** divides the sections. -/
theorem sections_append (h : AtMark mark after) :
    sections mark (before ++ after) = sections mark before ++ sections mark after := by
  induction before with
  | nil => rfl
  | cons x before ih =>
      rw [List.cons_append]
      by_cases hx : mark x = true
      · rw [sections_of_mark hx, sections_of_mark hx, front_append h, ih, List.cons_append]
      · have hx' : mark x = false := by simpa using hx
        rw [sections_of_unmarked hx', sections_of_unmarked hx', ih]

/-- The marks of the sections are the marked items. -/
theorem map_fst_sections (items : List α) :
    (sections mark items).map Prod.fst = items.filter mark := by
  induction items with
  | nil => rfl
  | cons x items ih =>
      by_cases hx : mark x = true
      · rw [sections_of_mark hx, List.map_cons, ih, List.filter_cons_of_pos hx]
      · have hx' : mark x = false := by simpa using hx
        rw [sections_of_unmarked hx', ih, List.filter_cons_of_neg hx]

/-- The unmarked items are those in front of the first mark and those of the sections. -/
theorem filter_unmarked (items : List α) :
    items.filter (fun item => !mark item) =
      front mark items ++ (sections mark items).flatMap Prod.snd := by
  induction items with
  | nil => rfl
  | cons x items ih =>
      by_cases hx : mark x = true
      · rw [sections_of_mark hx, front_of_mark hx, List.flatMap_cons, List.nil_append, ← ih]
        exact List.filter_cons_of_neg (by simp [hx])
      · have hx' : mark x = false := by simpa using hx
        rw [sections_of_unmarked hx', front_of_unmarked hx', List.cons_append, ← ih]
        exact List.filter_cons_of_pos (by simp [hx'])

/-- The items of a section are items of the list. -/
theorem mem_of_mem_sections {s : α × List α} (hs : s ∈ sections mark items) :
    s.1 ∈ items ∧ ∀ x ∈ s.2, x ∈ items := by
  induction items with
  | nil => exact absurd hs List.not_mem_nil
  | cons y items ih =>
      by_cases hy : mark y = true
      · rw [sections_of_mark hy, List.mem_cons] at hs
        rcases hs with rfl | hs
        · refine ⟨List.mem_cons_self, ?_⟩
          intro x hx
          exact List.mem_cons_of_mem _ ((List.takeWhile_prefix _).subset hx)
        · exact ⟨List.mem_cons_of_mem _ (ih hs).1,
            fun x hx => List.mem_cons_of_mem _ ((ih hs).2 x hx)⟩
      · rw [sections_of_unmarked (by simpa using hy)] at hs
        exact ⟨List.mem_cons_of_mem _ (ih hs).1,
          fun x hx => List.mem_cons_of_mem _ ((ih hs).2 x hx)⟩

/-! ## What is kept of every section -/

/-- Where each of some parts may lose items, the whole keeps them all exactly when every part
does. -/
theorem flatMap_eq_iff {β γ : Type*} {parts : List β} {kept whole : β → List γ}
    (hsub : ∀ part ∈ parts, (kept part).Sublist (whole part)) :
    parts.flatMap kept = parts.flatMap whole ↔ ∀ part ∈ parts, kept part = whole part := by
  constructor
  · intro heq
    induction parts with
    | nil => intro part hpart; exact absurd hpart List.not_mem_nil
    | cons part parts ih =>
        rw [List.flatMap_cons, List.flatMap_cons] at heq
        have hrest : (parts.flatMap kept).length ≤ (parts.flatMap whole).length := by
          rw [List.length_flatMap, List.length_flatMap]
          apply List.sum_le_sum
          intro p hp
          exact (hsub p (List.mem_cons_of_mem _ hp)).length_le
        have hfirst := (hsub part List.mem_cons_self).length_le
        have hlen := congrArg List.length heq
        rw [List.length_append, List.length_append] at hlen
        have hpart : kept part = whole part :=
          (hsub part List.mem_cons_self).eq_of_length (by omega)
        rw [hpart] at heq
        have hothers := ih (fun p hp => hsub p (List.mem_cons_of_mem _ hp))
          (List.append_cancel_left heq)
        intro p hp
        rcases List.mem_cons.1 hp with rfl | hp
        · exact hpart
        · exact hothers p hp
  · intro heach
    exact List.flatMap_congr heach

end Sulion.Sections
