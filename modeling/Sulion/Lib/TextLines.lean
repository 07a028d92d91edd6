import Mathlib.Tactic

set_option autoImplicit false

/-! # Texts joined by newlines

`lines` cuts a text at its newlines, `unlines` joins lines again. A text that was joined from
fields has the lines of the fields one after another, so whoever reads the fields back has to
find again where each of them starts.

A `Layout` says where a frame of a fixed number of lines may stand: how many lines are in front
of it at least, which lines the frame itself may be and which may follow it. Where a frame stands
at one place only, a text splits around a frame in one way.
-/

namespace Sulion.TextLines

/-! ## Lines -/

/-- A text of a single line. -/
def Plain (text : String) : Prop := '\n' ∉ text.toList

instance (text : String) : Decidable (Plain text) :=
  inferInstanceAs (Decidable ('\n' ∉ text.toList))

/-- The lines of a text; the last one has no newline behind it. -/
def lines (text : String) : List String := (text.toList.splitOn '\n').map String.ofList

/-- The text of the lines. -/
def unlines (lines : List String) : String := "\n".intercalate lines

theorem lines_ne_nil (text : String) : lines text ≠ [] := by simp [lines]

theorem lines_append (a b : String) : lines (a ++ "\n" ++ b) = lines a ++ lines b := by
  have htext : (a ++ "\n" ++ b).toList = a.toList ++ '\n' :: b.toList := by simp
  rw [lines, htext, List.splitOn_append_cons_self, List.map_append]
  rfl

theorem lines_of_plain {text : String} (h : Plain text) : lines text = [text] := by
  rw [lines, List.splitOn_eq_singleton h]
  simp

@[simp] theorem unlines_singleton (line : String) : unlines [line] = line :=
  String.intercalate_singleton

@[simp] theorem unlines_lines (text : String) : unlines (lines text) = text := by
  apply String.toList_injective
  have hmap : (lines text).map String.toList = text.toList.splitOn '\n' := by
    simp [lines, Function.comp_def]
  rw [unlines, String.toList_intercalate, hmap]
  exact List.intercalate_splitOn '\n'

theorem lines_injective : Function.Injective lines :=
  Function.LeftInverse.injective unlines_lines

theorem lines_inj {a b : String} : lines a = lines b ↔ a = b := lines_injective.eq_iff

/-- The lines of a joined text are those of its fields. -/
theorem lines_unlines (fields : List String) (hne : fields ≠ []) :
    lines (unlines fields) = fields.flatMap lines := by
  induction fields with
  | nil => exact absurd rfl hne
  | cons field fields ih =>
      cases fields with
      | nil => simp [unlines]
      | cons next fields =>
          calc lines (unlines (field :: next :: fields))
              = lines (field ++ "\n" ++ unlines (next :: fields)) := by
                rw [unlines, String.intercalate_cons_of_ne_nil (List.cons_ne_nil _ _), unlines]
            _ = lines field ++ lines (unlines (next :: fields)) := lines_append _ _
            _ = (field :: next :: fields).flatMap lines := by
                rw [ih (List.cons_ne_nil _ _), ← List.flatMap_cons]

theorem not_mem_of_mem_splitOn (cells word : List Char) (hword : word ∈ cells.splitOn '\n') :
    '\n' ∉ word := by
  induction cells generalizing word with
  | nil =>
      obtain rfl : word = [] := by simpa using hword
      exact List.not_mem_nil
  | cons cell cells ih =>
      rw [List.splitOn_cons_eq_if_modifyHead] at hword
      by_cases hcell : cell = '\n'
      · rw [if_pos (by simpa using hcell)] at hword
        rcases List.mem_cons.mp hword with rfl | hword
        · exact List.not_mem_nil
        · exact ih word hword
      · rw [if_neg (by simpa using hcell)] at hword
        cases hsplit : cells.splitOn '\n' with
        | nil => exact absurd hsplit (List.splitOn_ne_nil _ _)
        | cons first rest =>
            rw [hsplit, List.modifyHead_cons] at hword
            rcases List.mem_cons.mp hword with rfl | hword
            · have hfirst := ih first (by simp [hsplit])
              simpa [eq_comm, hcell] using hfirst
            · exact ih word (by simp [hsplit, hword])

/-- No line has a newline in it. -/
theorem plain_of_mem_lines {text line : String} (h : line ∈ lines text) : Plain line := by
  obtain ⟨word, hword, rfl⟩ := List.mem_map.mp h
  rw [Plain, String.toList_ofList]
  exact not_mem_of_mem_splitOn text.toList word hword

theorem flatMap_lines_of_plain (fields : List String) (hplain : ∀ field ∈ fields, Plain field) :
    fields.flatMap lines = fields := by
  induction fields with
  | nil => rfl
  | cons field fields ih =>
      rw [List.flatMap_cons, lines_of_plain (hplain field (by simp)), ih fun _ hmem =>
        hplain _ (List.mem_cons_of_mem field hmem)]
      rfl

/-- Lines that are joined are found again. -/
theorem lines_unlines_of_plain (fields : List String) (hne : fields ≠ [])
    (hplain : ∀ field ∈ fields, Plain field) : lines (unlines fields) = fields := by
  rw [lines_unlines fields hne, flatMap_lines_of_plain fields hplain]

/-- A text is plain exactly where it has one line. -/
theorem plain_iff_length (text : String) : Plain text ↔ (lines text).length = 1 := by
  constructor
  · intro h
    rw [lines_of_plain h]
    rfl
  · intro hlength
    obtain ⟨line, hline⟩ := List.length_eq_one_iff.mp hlength
    have hmem : line ∈ lines text := by rw [hline]; exact List.mem_singleton_self line
    have htext : text = line := by
      rw [← unlines_lines text, hline, unlines_singleton]
    rw [htext]
    exact plain_of_mem_lines hmem

/-! ## Frames -/

/-- Where a frame of `size` items may stand. -/
structure Layout (α : Type*) where
  least : Nat
  size : Nat
  size_pos : 0 < size
  frame : List α → Prop
  back : List α → Prop
  length_of_frame : ∀ items, frame items → items.length = size

variable {α : Type*} (layout : Layout α)

/-- A frame stands behind the first `k` items. -/
structure Layout.At (body : List α) (k : Nat) : Prop where
  least : layout.least ≤ k
  frame : layout.frame ((body.drop k).take layout.size)
  back : layout.back (body.drop (k + layout.size))

/-- No frame stands anywhere else. -/
def Layout.OnlyAt (body : List α) (k : Nat) : Prop := ∀ k', layout.At body k' → k' = k

variable {layout} {front frame back front' frame' back' : List α}

theorem Layout.at_append (hleast : layout.least ≤ front.length) (hframe : layout.frame frame)
    (hback : layout.back back) : layout.At (front ++ frame ++ back) front.length where
  least := hleast
  frame := by
    have hsize := layout.length_of_frame frame hframe
    simpa [List.append_assoc, ← hsize] using hframe
  back := by
    have hsize := layout.length_of_frame frame hframe
    rw [← hsize, ← List.length_append, List.drop_left]
    exact hback

/-- An item before the frame, the frame and what follows. -/
theorem Layout.At.split {body : List α} {k : Nat} (h : layout.At body k) :
    ∃ front frame back, body = front ++ frame ++ back ∧ front.length = k ∧
      layout.frame frame ∧ layout.back back := by
  refine ⟨body.take k, (body.drop k).take layout.size, body.drop (k + layout.size), ?_, ?_,
    h.frame, h.back⟩
  · rw [← List.drop_drop, List.append_assoc, List.take_append_drop, List.take_append_drop]
  · have hsize := layout.length_of_frame _ h.frame
    rw [List.length_take, List.length_drop] at hsize
    have hpos := layout.size_pos
    rw [List.length_take]
    omega

end Sulion.TextLines
