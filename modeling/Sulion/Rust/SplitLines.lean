import Mathlib.Tactic

set_option autoImplicit false

/-! # The lines of a text

`str::split_inclusive('\n')` and `str::lines` on lists of characters. A line of the first keeps its
line feed; of the second it does not, nor a carriage return before the line feed.
-/

namespace Sulion.Rust

/-- `str::split_inclusive('\n')`. -/
def splitInclusive : List Char → List (List Char)
  | [] => []
  | c :: cs =>
      if c = '\n' then [c] :: splitInclusive cs
      else
        match splitInclusive cs with
        | [] => [[c]]
        | line :: rest => (c :: line) :: rest

/-- A line without its `\n` or `\r\n`. -/
def chomp (line : List Char) : List Char :=
  if line.getLast? = some '\n' then
    let line := line.dropLast
    if line.getLast? = some '\r' then line.dropLast else line
  else line

/-- `str::lines`. -/
def strLines (source : String) : List String :=
  (splitInclusive source.toList).map fun line => String.ofList (chomp line)

/-- A piece that `splitInclusive` takes as one line wherever more text follows. -/
def IsLine (line : List Char) : Prop := ∃ body, '\n' ∉ body ∧ line = body ++ ['\n']

theorem splitInclusive_cons_line {line : List Char} (hline : IsLine line) (text : List Char) :
    splitInclusive (line ++ text) = line :: splitInclusive text := by
  obtain ⟨body, hbody, rfl⟩ := hline
  induction body with
  | nil => simp [splitInclusive]
  | cons c body ih =>
      have hc : c ≠ '\n' := fun h => hbody (h ▸ List.mem_cons_self)
      have hrest := ih fun h => hbody (List.mem_cons_of_mem c h)
      rw [List.cons_append, List.cons_append, splitInclusive, if_neg hc, hrest]

theorem splitInclusive_last {line : List Char} (hline : '\n' ∉ line) (hne : line ≠ []) :
    splitInclusive line = [line] := by
  induction line with
  | nil => exact absurd rfl hne
  | cons c line ih =>
      have hc : c ≠ '\n' := fun h => hline (h ▸ List.mem_cons_self)
      rw [splitInclusive, if_neg hc]
      cases line with
      | nil => rfl
      | cons d line =>
          rw [ih (fun h => hline (List.mem_cons_of_mem c h)) (by simp)]

end Sulion.Rust
