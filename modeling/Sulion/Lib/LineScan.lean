import Mathlib.Data.List.Basic

set_option autoImplicit false

/-! # Lines of a text that comes in pieces

A text is read symbol by symbol, and each line is handled at its separator; the handler may stop
the reading. A reader that keeps the unfinished line between two pieces reads what it would read
of the whole text (`scan_append`), and that is its finished lines, handled in order
(`scan_lines`).
-/

namespace Sulion.LineScan

variable {α σ τ : Type*} [DecidableEq α] (sep : α) (handle : σ → List α → Except τ σ)

/-- Handle the finished lines of a text behind the unfinished `line`; what is left is the state
and the new unfinished line. -/
def scan : σ → List α → List α → Except τ (σ × List α)
  | s, line, [] => .ok (s, line)
  | s, line, a :: text =>
      if a = sep then
        match handle s line with
        | .ok s => scan s [] text
        | .error stop => .error stop
      else scan s (line ++ [a]) text

/-- The finished lines of a text behind the unfinished `line`. -/
def finished : List α → List α → List (List α)
  | _, [] => []
  | line, a :: text => if a = sep then line :: finished [] text else finished (line ++ [a]) text

variable {sep handle}

/-- **Reading on from the unfinished line is reading the whole.** -/
theorem scan_append (s : σ) (line a b : List α) :
    scan sep handle s line (a ++ b) =
      match scan sep handle s line a with
      | .ok (s, line) => scan sep handle s line b
      | .error stop => .error stop := by
  induction a generalizing s line with
  | nil => rfl
  | cons x a ih =>
      rw [List.cons_append, scan, scan]
      by_cases hx : x = sep
      · rw [if_pos hx, if_pos hx]
        cases handle s line with
        | ok s => exact ih s []
        | error stop => rfl
      · rw [if_neg hx, if_neg hx]
        exact ih s (line ++ [x])

/-- Without a separator a text only makes the line longer. -/
theorem scan_of_notMem (s : σ) (line : List α) {a : List α} (h : sep ∉ a) :
    scan sep handle s line a = .ok (s, line ++ a) := by
  induction a generalizing line with
  | nil => rw [List.append_nil, scan]
  | cons x a ih =>
      rw [List.mem_cons, not_or] at h
      rw [scan, if_neg (Ne.symm h.1), ih _ h.2, List.append_assoc, List.singleton_append]

/-- The unfinished line has no separator. -/
theorem notMem_of_scan {s s' : σ} {line line' a : List α} (hline : sep ∉ line)
    (h : scan sep handle s line a = .ok (s', line')) : sep ∉ line' := by
  induction a generalizing s line with
  | nil =>
      cases h
      exact hline
  | cons x a ih =>
      rw [scan] at h
      split at h
      · split at h
        · exact ih List.not_mem_nil h
        · cases h
      · rename_i hx
        refine ih ?_ h
        rw [List.mem_append, List.mem_singleton, not_or]
        exact ⟨hline, Ne.symm hx⟩

/-- **A scan handles the finished lines.** -/
theorem scan_lines (s : σ) (line a : List α) :
    (scan sep handle s line a).map Prod.fst = (finished sep line a).foldlM handle s := by
  induction a generalizing s line with
  | nil => rfl
  | cons x a ih =>
      rw [scan, finished]
      by_cases hx : x = sep
      · rw [if_pos hx, if_pos hx, List.foldlM_cons]
        cases handle s line with
        | ok s => exact ih s []
        | error stop => rfl
      · rw [if_neg hx, if_neg hx]
        exact ih s (line ++ [x])

end Sulion.LineScan
