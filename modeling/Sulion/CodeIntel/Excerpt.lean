import Sulion.Rust.Ints
import Sulion.Rust.SplitLines

set_option autoImplicit false

/-! # Excerpts of a source file

`select_excerpt` of the context packs: the lines of a requested range, clipped to the file and to a
budget of lines. It goes wrong on an empty file, where there is no line to clip to, and on files
whose number of lines does not fit in 32 bits.
-/

namespace Sulion.CodeIntel

open Rust

structure RangeView where
  path : String
  startLine : Int
  startCol : Int
  endLine : Int
  endCol : Int
  deriving DecidableEq

structure PackExcerptView where
  range : RangeView
  text : String
  truncatedBefore : Bool
  truncatedAfter : Bool
  deriving DecidableEq

/-- `none` where the function panics. -/
def selectExcerpt (source : String) (range : RangeView) (maxLines : Int) :
    Option (PackExcerptView × Bool) := do
  let lines := strLines source
  -- an empty file is counted as one line, but there is none to slice
  let lineCount := asI32 (max lines.length 1)
  let requestedStart ← clampI32 range.startLine 1 lineCount
  let requestedEnd ← clampI32 range.endLine requestedStart lineCount
  let requestedLen := asI32 (asI32 (requestedEnd - requestedStart) + 1)
  let clippedEnd :=
    if requestedLen > maxLines then asI32 (asI32 (requestedStart + maxLines) - 1)
    else requestedEnd
  let text ← slice lines (asUsize (asI32 (requestedStart - 1))) (asUsize clippedEnd)
  let excerptRange : RangeView :=
    { path := range.path
      startLine := requestedStart
      startCol := if requestedStart = range.startLine then range.startCol else 1
      endLine := clippedEnd
      endCol :=
        if clippedEnd = range.endLine then range.endCol
        else
          match lines[asUsize (asI32 (clippedEnd - 1))]? with
          | some line => asI32 (asI32 line.utf8ByteSize + 1)
          | none => 1 }
  let truncatedAfter := decide (clippedEnd < requestedEnd)
  some
    ({ range := excerptRange
       text := "\n".intercalate text
       truncatedBefore := decide (requestedStart > range.startLine)
       truncatedAfter := truncatedAfter },
      truncatedAfter)

variable {source : String} {range : RangeView} {maxLines : Int}

/-- The number of lines as the function counts them. -/
def lineCount (source : String) : Int := asI32 (strLines source).length

/-- A line that the request names, or the last one where it is past the end. -/
def clipped (source : String) (line : Int) : Int := min line (strLines source).length

/-- The line an excerpt ends with: the last requested one, or the last that the budget allows. -/
def lastShown (start stop maxLines : Int) : Int := min stop (start + maxLines - 1)

/-- Lines `start` to `stop` of the text, both counted from one. -/
def linesFrom (source : String) (start stop : Int) : List String :=
  ((strLines source).take stop.toNat).drop (start - 1).toNat

/-- The excerpt is the clipped request, from its start and as far as the budget goes. -/
structure ExactExcerpt (source : String) (range : RangeView) (maxLines : Int)
    (excerpt : PackExcerptView) : Prop where
  inside : 1 ≤ excerpt.range.startLine ∧ excerpt.range.startLine ≤ excerpt.range.endLine ∧
    excerpt.range.endLine ≤ (strLines source).length
  start : excerpt.range.startLine = clipped source range.startLine
  stop : excerpt.range.endLine ≤ clipped source range.endLine
  text : excerpt.text =
    "\n".intercalate (linesFrom source excerpt.range.startLine excerpt.range.endLine)
  budget : excerpt.range.endLine - excerpt.range.startLine + 1 ≤ maxLines
  truncated : excerpt.truncatedAfter = true ↔
    excerpt.range.endLine < clipped source range.endLine

/-- The text has a line, and the lines asked for are among those that 32 bits can count: all of
them, up to the end of the request, or up to where the budget ends. -/
def Countable (source : String) (range : RangeView) (maxLines : Int) : Prop :=
  strLines source ≠ [] ∧ 1 ≤ lineCount source ∧
    (lineCount source = (strLines source).length ∨ range.endLine ≤ lineCount source ∨
      (range.startLine ≤ lineCount source ∧ range.startLine + maxLines ≤ lineCount source))

theorem lineCount_le (source : String) :
    lineCount source ≤ (strLines source).length ∧ lineCount source ≤ i32Max :=
  ⟨asI32_le_self (by omega), asI32_le _⟩

section

variable {s e : Int}

/-- Within the range of the type none of the additions wraps. -/
theorem clippedEnd_eq (hs : 1 ≤ s) (hle : s ≤ e) (he : e ≤ i32Max) (hmax : 1 ≤ maxLines) :
    (if asI32 (asI32 (e - s) + 1) > maxLines then asI32 (asI32 (s + maxLines) - 1) else e)
      = lastShown s e maxLines := by
  unfold i32Max at he
  have hlen : asI32 (asI32 (e - s) + 1) = e - s + 1 := by
    rw [asI32_of_fits (n := e - s) (by omega) (by unfold i32Max; omega),
      asI32_of_fits (by omega) (by unfold i32Max; omega)]
  rw [hlen, lastShown]
  split
  · rw [asI32_of_fits (n := s + maxLines) (by omega) (by unfold i32Max; omega),
      asI32_of_fits (by omega) (by unfold i32Max; omega)]
    omega
  · omega

theorem slice_lines (hs : 1 ≤ s) (hle : s ≤ e) (he : e ≤ i32Max) (hmax : 1 ≤ maxLines)
    (hcount : e ≤ (strLines source).length) :
    slice (strLines source) (asUsize (asI32 (s - 1))) (asUsize (lastShown s e maxLines))
      = some (linesFrom source s (lastShown s e maxLines)) := by
  have hbounds : s ≤ lastShown s e maxLines ∧ lastShown s e maxLines ≤ e := by
    unfold lastShown
    omega
  generalize lastShown s e maxLines = last at hbounds ⊢
  unfold i32Max at he
  rw [asI32_of_fits (by omega) (by unfold i32Max; omega),
    asUsize_of_fits (by omega) (by unfold i32Max; omega),
    asUsize_of_fits (n := last) (by omega) (by unfold i32Max; omega), slice, if_pos (by omega)]
  rfl

end

/-- What the function computes where its line count is a positive number. -/
theorem selectExcerpt_of_lineCount (hlines : strLines source ≠ []) (hcount : 1 ≤ lineCount source)
    (hstart : 1 ≤ range.startLine) (hle : range.startLine ≤ range.endLine)
    (hmax : 1 ≤ maxLines) :
    ∃ excerpt, selectExcerpt source range maxLines = some (excerpt, excerpt.truncatedAfter) ∧
      excerpt.range.startLine = min range.startLine (lineCount source) ∧
      excerpt.range.endLine = lastShown (min range.startLine (lineCount source))
        (min range.endLine (lineCount source)) maxLines ∧
      excerpt.text =
        "\n".intercalate (linesFrom source excerpt.range.startLine excerpt.range.endLine) ∧
      (excerpt.truncatedAfter = true ↔
        excerpt.range.endLine < min range.endLine (lineCount source)) := by
  obtain ⟨hcount_le, hcount_max⟩ := lineCount_le source
  have hlength : 1 ≤ (strLines source).length := List.length_pos_iff.mpr hlines
  have hcounted : asI32 (max ((strLines source).length : Int) 1) = lineCount source := by
    rw [lineCount, max_eq_left (by exact_mod_cast hlength)]
  generalize lineCount source = w at hcount_le hcount_max hcount hcounted ⊢
  have hbounds : 1 ≤ min range.startLine w ∧ min range.startLine w ≤ min range.endLine w ∧
      min range.endLine w ≤ w := by omega
  have hfirst : clampI32 range.startLine 1 w = some (min range.startLine w) := by
    rw [clampI32_eq_some hcount, max_eq_right hbounds.1]
  have hlast : clampI32 range.endLine (min range.startLine w) w = some (min range.endLine w) := by
    rw [clampI32_eq_some (min_le_right _ _), max_eq_right hbounds.2.1]
  generalize min range.startLine w = s at hbounds hfirst hlast ⊢
  generalize min range.endLine w = e at hbounds hlast ⊢
  obtain ⟨hs, hse, hew⟩ := hbounds
  have hclip := clippedEnd_eq hs hse (hew.trans hcount_max) hmax
  have hend : e ≤ (strLines source).length := hew.trans hcount_le
  have hslice := slice_lines hs hse (hew.trans hcount_max) hmax hend
  unfold selectExcerpt
  simp only [hcounted]
  rw [hfirst, Option.bind_eq_bind, Option.bind_some, hlast, Option.bind_eq_bind, Option.bind_some,
    hclip, hslice, Option.bind_some]
  exact ⟨_, rfl, rfl, rfl, rfl, decide_eq_true_iff⟩

/-- A count that is not positive makes the first clamp panic. -/
theorem selectExcerpt_of_wrapped (hlines : strLines source ≠ []) (hcount : lineCount source < 1) :
    selectExcerpt source range maxLines = none := by
  have hlength : 1 ≤ (strLines source).length := List.length_pos_iff.mpr hlines
  have hcounted : asI32 (max ((strLines source).length : Int) 1) = lineCount source := by
    rw [lineCount, max_eq_left (by exact_mod_cast hlength)]
  simp only [selectExcerpt, hcounted, clampI32_eq_none hcount, Option.bind_eq_bind,
    Option.bind_none]

/-- Without a line, the count is one and the slice is out of range. -/
theorem selectExcerpt_of_empty (hlines : strLines source = []) (hmax : 1 ≤ maxLines) :
    selectExcerpt source range maxLines = none := by
  have hone : asI32 (max ((strLines source).length : Int) 1) = 1 := by
    rw [hlines]
    decide
  have hfirst : clampI32 range.startLine 1 1 = some 1 := by
    rw [clampI32_eq_some le_rfl]
    exact congrArg some (by omega)
  have hlast : clampI32 range.endLine 1 1 = some 1 := by
    rw [clampI32_eq_some le_rfl]
    exact congrArg some (by omega)
  have hclip : (if asI32 (asI32 (1 - 1) + 1) > maxLines then asI32 (asI32 (1 + maxLines) - 1)
      else 1) = 1 := if_neg (by rw [show asI32 (asI32 (1 - 1) + 1) = 1 by decide]; omega)
  have hslice : slice (strLines source) (asUsize (asI32 (1 - 1))) (asUsize 1) = none := by
    rw [hlines]
    rfl
  simp only [selectExcerpt, hone, hfirst, hlast, Option.bind_eq_bind, Option.bind_some, hclip,
    hslice, Option.bind_none]

/-- **An excerpt is selected, and is exact, when the lines can be counted.** -/
theorem selectExcerpt_exact_iff (hstart : 1 ≤ range.startLine)
    (hle : range.startLine ≤ range.endLine) (hmax : 1 ≤ maxLines) :
    (∃ excerpt, selectExcerpt source range maxLines = some (excerpt, excerpt.truncatedAfter) ∧
        ExactExcerpt source range maxLines excerpt) ↔
      Countable source range maxLines := by
  obtain ⟨hcount_le, -⟩ := lineCount_le source
  by_cases hlines : strLines source = []
  · -- no line: both sides are false
    rw [selectExcerpt_of_empty hlines hmax]
    simp [Countable, hlines]
  by_cases hcount : lineCount source < 1
  · rw [selectExcerpt_of_wrapped hlines hcount]
    have hnot : ¬ Countable source range maxLines := fun h => absurd h.2.1 (by omega)
    simp [hnot]
  obtain ⟨excerpt, heq, hfirst, hlast, htext, htruncated⟩ :=
    selectExcerpt_of_lineCount hlines (by omega) hstart hle hmax
  unfold Countable
  generalize lineCount source = w at hcount_le hcount hfirst hlast htruncated ⊢
  unfold lastShown at hlast
  constructor
  · rintro ⟨other, hother, hexact⟩
    obtain rfl : excerpt = other := by
      rw [heq] at hother
      exact (Prod.mk.inj (Option.some.inj hother)).1
    have hclipStart := hexact.start
    have hclipEnd := hexact.truncated
    rw [htruncated] at hclipEnd
    refine ⟨hlines, by omega, ?_⟩
    unfold clipped at hclipStart hclipEnd
    omega
  · rintro ⟨-, -, hcountable⟩
    refine ⟨excerpt, heq, ?_, ?_, ?_, htext, ?_, ?_⟩
    · omega
    · unfold clipped
      omega
    · unfold clipped
      omega
    · omega
    · rw [htruncated]
      unfold clipped
      omega

/-- The request of the first two lines of a text of three, with a budget of one. -/
theorem selectExcerpt_exact_clipped :
    (∃ excerpt, selectExcerpt "a\nb\r\nc" ⟨"a.rs", 2, 1, 9, 4⟩ 1
        = some (excerpt, excerpt.truncatedAfter) ∧
        ExactExcerpt "a\nb\r\nc" ⟨"a.rs", 2, 1, 9, 4⟩ 1 excerpt) ↔
      Countable "a\nb\r\nc" ⟨"a.rs", 2, 1, 9, 4⟩ 1 :=
  selectExcerpt_exact_iff (by decide) (by decide) (by decide)

/-- A file without a line, and a request for its first. -/
theorem selectExcerpt_empty_file : ¬ ∀ (source : String) (range : RangeView) (maxLines : Int),
    1 ≤ range.startLine → range.startLine ≤ range.endLine → range.endLine ≤ i32Max →
      1 ≤ maxLines →
      ∃ excerpt, selectExcerpt source range maxLines = some (excerpt, excerpt.truncatedAfter) ∧
        ExactExcerpt source range maxLines excerpt := by
  intro h
  obtain ⟨excerpt, hsome, -⟩ := h "" ⟨"empty.rs", 1, 1, 1, 1⟩ 80 (by decide) (by decide)
    (by decide) (by decide)
  have hnone : selectExcerpt "" ⟨"empty.rs", 1, 1, 1, 1⟩ 80 = none := by decide
  rw [hnone] at hsome
  cases hsome

end Sulion.CodeIntel
