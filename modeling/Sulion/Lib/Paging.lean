import Mathlib.Data.List.Sort
import Mathlib.Order.Basic

set_option autoImplicit false
set_option linter.unusedSectionVars false

/-! # Reading a sorted list in pages

A list sorted by a key is read in pages of a limited size, each page behind the last key of
the one before. No row is missed: a row that is not behind the last key read is on a page
(`mem_page`).
-/

namespace Sulion.Paging

variable {α κ : Type*} [LinearOrder κ] (f : α → κ) (size : Nat)

/-- The next page: up to `size` of the rows behind `after`. -/
def page (after : κ) (l : List α) : List α := (l.filter fun x => decide (after < f x)).take size

/-- The last key read, after a page. -/
def lastKey (after : κ) (read : List α) : κ := (read.getLast?.map f).getD after

variable {f size} {after : κ} {l : List α} {x : α}

/-- Rows with different keys, sorted, are strictly sorted. -/
theorem pairwise_sorted (hl : (l.map f).Nodup) :
    (l.insertionSort fun a b => f a ≤ f b).Pairwise fun a b => f a < f b := by
  have hle : (l.insertionSort fun a b => f a ≤ f b).Pairwise fun a b => f a ≤ f b := by
    have htotal : Std.Total fun a b : α => f a ≤ f b := ⟨fun a b => le_total (f a) (f b)⟩
    have htrans : IsTrans α fun a b => f a ≤ f b := ⟨fun a b c => le_trans⟩
    exact List.pairwise_insertionSort _ l
  have hne : (l.insertionSort fun a b => f a ≤ f b).Pairwise fun a b => f a ≠ f b := by
    rw [← List.pairwise_map (f := f) (R := (· ≠ ·))]
    exact ((List.perm_insertionSort _ l).map f).nodup_iff.mpr hl
  exact (hle.and hne).imp fun hand => lt_of_le_of_ne hand.1 hand.2

theorem lt_of_mem_page (h : x ∈ page f size after l) : after < f x := by
  have hmem : x ∈ l.filter fun x => decide (after < f x) := List.mem_of_mem_take h
  exact of_decide_eq_true (List.mem_filter.mp hmem).2

theorem mem_of_mem_page (h : x ∈ page f size after l) : x ∈ l :=
  List.mem_of_mem_filter (List.mem_of_mem_take h)

theorem pairwise_page (hl : l.Pairwise fun a b => f a < f b) :
    (page f size after l).Pairwise fun a b => f a < f b :=
  (hl.filter _).take

theorem exists_lastKey {read : List α} (hne : read ≠ []) (after : κ) :
    ∃ y ∈ read, lastKey f after read = f y := by
  cases hy : read.getLast? with
  | none => exact absurd (List.getLast?_eq_none_iff.mp hy) hne
  | some y =>
      refine ⟨y, List.mem_of_getLast? hy, ?_⟩
      unfold lastKey
      rw [hy]
      rfl

/-- The last key of a page is its greatest. -/
theorem le_lastKey {read : List α} (hread : read.Pairwise fun a b => f a < f b) (hx : x ∈ read)
    (after : κ) : f x ≤ lastKey f after read := by
  obtain ⟨front, last, rfl⟩ := List.eq_nil_or_concat read |>.resolve_left (List.ne_nil_of_mem hx)
  unfold lastKey
  rw [List.concat_eq_append, List.getLast?_concat, Option.map_some, Option.getD_some]
  rw [List.concat_eq_append] at hx hread
  rcases List.mem_append.mp hx with hfront | hlast
  · exact ((List.pairwise_append.mp hread).2.2 x hfront last List.mem_cons_self).le
  · rw [List.mem_singleton.mp hlast]

theorem after_le_lastKey : after ≤ lastKey f after (page f size after l) := by
  by_cases hempty : page f size after l = []
  · rw [hempty]
    exact le_rfl
  · obtain ⟨y, hy, hlast⟩ := exists_lastKey (f := f) hempty after
    rw [hlast]
    exact (lt_of_mem_page hy).le

/-- **No row is missed**: one behind `after` is on the page, unless the page is full and ends
before it. -/
theorem mem_page (hl : l.Pairwise fun a b => f a < f b) (hx : x ∈ l) (hafter : after < f x)
    (hreach : f x ≤ lastKey f after (page f size after l) ∨ (page f size after l).length < size) :
    x ∈ page f size after l := by
  have hmem : x ∈ l.filter fun x => decide (after < f x) :=
    List.mem_filter.mpr ⟨hx, decide_eq_true hafter⟩
  have hsorted := hl.filter fun x => decide (after < f x)
  unfold page at hreach ⊢
  generalize l.filter (fun x => decide (after < f x)) = behind at hmem hsorted hreach ⊢
  rw [← List.take_append_drop size behind] at hmem hsorted
  rcases List.mem_append.mp hmem with hread | hrest
  · exact hread
  · exfalso
    rcases hreach with hle | hshort
    · by_cases hempty : behind.take size = []
      · rw [hempty] at hle
        exact absurd hle (not_le.mpr hafter)
      · obtain ⟨y, hy, hlast⟩ := exists_lastKey (f := f) hempty after
        rw [hlast] at hle
        exact absurd hle (not_le.mpr ((List.pairwise_append.mp hsorted).2.2 y hy x hrest))
    · rw [List.length_take] at hshort
      rw [List.drop_eq_nil_of_le (by omega)] at hrest
      cases hrest

end Sulion.Paging
