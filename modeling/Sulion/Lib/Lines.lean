import Mathlib.Tactic

set_option autoImplicit false

/-! # Lines of a growing sequence

A sequence of cells is cut into lines by a separator. `IsLine sep file l` says that `l` is a
terminated line of `file`; `splitFrom` is the loop that finds the lines of a buffer, and
`Consecutive` is what it returns: lines of the file, each starting where the one before it
stops.

Two facts carry the reasoning about a reader that works forward from an offset: of two lines
the later one starts behind the earlier (`IsLine.eq_or_behind`), so a line between the ends
of a consecutive list is in the list (`Consecutive.mem_of_isLine`); and a line stays a line
when the file grows, while no line appears below the old end (`isLine_append_iff`).
-/

namespace Sulion.Lines

variable {α : Type*}

/-- A line: where it starts, and its cells without the separator. -/
structure Line (α : Type*) where
  start : Nat
  cells : List α
  deriving DecidableEq, Repr

/-- The offset just past the separator. -/
def Line.stop (l : Line α) : Nat := l.start + l.cells.length + 1

/-- The offset is the start of the file or follows a separator. -/
def Boundary (sep : α) (file : List α) (offset : Nat) : Prop :=
  ∀ p, p + 1 = offset → file[p]? = some sep

/-- `l` is a terminated line of `file`. -/
structure IsLine (sep : α) (file : List α) (l : Line α) : Prop where
  boundary : Boundary sep file l.start
  cells_eq : ∀ i < l.cells.length, file[l.start + i]? = l.cells[i]?
  terminated : file[l.start + l.cells.length]? = some sep
  plain : sep ∉ l.cells

variable {sep : α} {file more : List α} {l l' : Line α} {lines : List (Line α)} {offset : Nat}

theorem boundary_zero : Boundary sep file 0 := fun _ hp => by omega

theorem IsLine.boundary_stop (h : IsLine sep file l) : Boundary sep file l.stop := by
  intro p hp
  rw [Line.stop, Nat.add_right_cancel_iff] at hp
  rw [hp]
  exact h.terminated

theorem IsLine.stop_le (h : IsLine sep file l) : l.stop ≤ file.length := by
  obtain ⟨hlt, _⟩ := List.getElem?_eq_some_iff.mp h.terminated
  exact hlt

/-- A cell of a line is not the separator. -/
theorem IsLine.ne_sep (h : IsLine sep file l) {i : Nat} (hi : i < l.cells.length) :
    file[l.start + i]? ≠ some sep := by
  intro hsep
  rw [h.cells_eq i hi] at hsep
  exact h.plain (List.mem_of_getElem? hsep)

/-- **Lines do not overlap.** Of two lines, the one that starts later is the same line or
starts behind the other. -/
theorem IsLine.eq_or_behind (h : IsLine sep file l) (h' : IsLine sep file l')
    (hle : l.start ≤ l'.start) : l' = l ∨ l.stop ≤ l'.start := by
  rcases Nat.eq_or_lt_of_le hle with heq | hlt
  · left
    -- Whichever is shorter, its terminator would be a cell of the other.
    have hlen : l.cells.length = l'.cells.length := by
      rcases Nat.lt_trichotomy l.cells.length l'.cells.length with hl | hl | hl
      · exact absurd (heq ▸ h.terminated) (h'.ne_sep hl)
      · exact hl
      · exact absurd (heq ▸ h'.terminated) (h.ne_sep hl)
    have hcells : l'.cells = l.cells := by
      refine List.ext_getElem? fun i => ?_
      by_cases hi : i < l.cells.length
      · rw [← h.cells_eq i hi, ← h'.cells_eq i (hlen ▸ hi), heq]
      · rw [List.getElem?_eq_none (by omega), List.getElem?_eq_none (by omega)]
    cases l
    cases l'
    simp_all
  · right
    obtain ⟨p, hp⟩ : ∃ p, p + 1 = l'.start := ⟨l'.start - 1, by omega⟩
    have hsep := h'.boundary p hp
    by_contra hnot
    have hi : p - l.start < l.cells.length := by
      rw [Line.stop] at hnot
      omega
    refine h.ne_sep hi ?_
    rw [Nat.add_sub_cancel' (by omega)]
    exact hsep

theorem getElem?_append_of_lt {i : Nat} (hi : i < file.length) :
    (file ++ more)[i]? = file[i]? := List.getElem?_append_left hi

/-- **Growing a file** adds lines behind its old end only. -/
theorem isLine_append_iff (hstop : l.stop ≤ file.length) :
    IsLine sep (file ++ more) l ↔ IsLine sep file l := by
  rw [Line.stop] at hstop
  constructor
  · intro h
    refine ⟨fun p hp => ?_, fun i hi => ?_, ?_, h.plain⟩
    · exact (getElem?_append_of_lt (by omega)).symm.trans (h.boundary p hp)
    · exact (getElem?_append_of_lt (by omega)).symm.trans (h.cells_eq i hi)
    · exact (getElem?_append_of_lt (by omega)).symm.trans h.terminated
  · intro h
    refine ⟨fun p hp => ?_, fun i hi => ?_, ?_, h.plain⟩
    · rw [getElem?_append_of_lt (by omega)]
      exact h.boundary p hp
    · rw [getElem?_append_of_lt (by omega)]
      exact h.cells_eq i hi
    · rw [getElem?_append_of_lt (by omega)]
      exact h.terminated

theorem boundary_append (hoff : offset ≤ file.length) (h : Boundary sep file offset) :
    Boundary sep (file ++ more) offset := by
  intro p hp
  rw [getElem?_append_of_lt (by omega)]
  exact h p hp

/-! ## Consecutive lines -/

/-- Lines of the file from `offset` on, each starting where the one before it stops. -/
def Consecutive (sep : α) (file : List α) : Nat → List (Line α) → Prop
  | _, [] => True
  | offset, l :: lines => l.start = offset ∧ IsLine sep file l ∧ Consecutive sep file l.stop lines

theorem Consecutive.append_file (h : Consecutive sep file offset lines) :
    Consecutive sep (file ++ more) offset lines := by
  induction lines generalizing offset with
  | nil => trivial
  | cons l lines ih =>
      obtain ⟨hstart, hl, hrest⟩ := h
      exact ⟨hstart, (isLine_append_iff hl.stop_le).mpr hl, ih hrest⟩

/-- Where a list of consecutive lines from `offset` on stops. -/
def stopOf : Nat → List (Line α) → Nat
  | offset, [] => offset
  | _, l :: lines => stopOf l.stop lines

theorem stopOf_append (offset : Nat) (lines lines' : List (Line α)) :
    stopOf offset (lines ++ lines') = stopOf (stopOf offset lines) lines' := by
  induction lines generalizing offset with
  | nil => rfl
  | cons l lines ih => exact ih l.stop

theorem Consecutive.of_append {lines' : List (Line α)}
    (h : Consecutive sep file offset (lines ++ lines')) : Consecutive sep file offset lines := by
  induction lines generalizing offset with
  | nil => trivial
  | cons l lines ih => exact ⟨h.1, h.2.1, ih h.2.2⟩

theorem Consecutive.of_append_right {lines' : List (Line α)}
    (h : Consecutive sep file offset (lines ++ lines')) :
    Consecutive sep file (stopOf offset lines) lines' := by
  induction lines generalizing offset with
  | nil => exact h
  | cons l lines ih => exact ih h.2.2

theorem Consecutive.le_stopOf (h : Consecutive sep file offset lines) :
    offset ≤ stopOf offset lines := by
  induction lines generalizing offset with
  | nil => exact le_rfl
  | cons l lines ih =>
      have := ih h.2.2
      have hstart := h.1
      rw [stopOf]
      unfold Line.stop at *
      omega

theorem Consecutive.lt_stopOf (h : Consecutive sep file offset lines) (hne : lines ≠ []) :
    offset < stopOf offset lines := by
  cases lines with
  | nil => exact absurd rfl hne
  | cons l lines =>
      have := h.2.2.le_stopOf
      have hstart := h.1
      rw [stopOf]
      unfold Line.stop at *
      omega

theorem Consecutive.stopOf_le (h : Consecutive sep file offset lines)
    (hoff : offset ≤ file.length) : stopOf offset lines ≤ file.length := by
  induction lines generalizing offset with
  | nil => exact hoff
  | cons l lines ih => exact ih h.2.2 h.2.1.stop_le

theorem Consecutive.boundary_stopOf (h : Consecutive sep file offset lines)
    (hoff : Boundary sep file offset) : Boundary sep file (stopOf offset lines) := by
  induction lines generalizing offset with
  | nil => exact hoff
  | cons l lines ih => exact ih h.2.2 h.2.1.boundary_stop

theorem Consecutive.of_mem (h : Consecutive sep file offset lines) (hl : l ∈ lines) :
    IsLine sep file l ∧ offset ≤ l.start ∧ l.stop ≤ stopOf offset lines := by
  induction lines generalizing offset with
  | nil => cases hl
  | cons x lines ih =>
      obtain ⟨hstart, hx, hrest⟩ := h
      rcases List.mem_cons.mp hl with rfl | hl
      · exact ⟨hx, hstart.ge, hrest.le_stopOf⟩
      · obtain ⟨hline, hle, hstop⟩ := ih hrest hl
        refine ⟨hline, ?_, hstop⟩
        unfold Line.stop at hle
        omega

theorem Consecutive.pairwise (h : Consecutive sep file offset lines) :
    lines.Pairwise fun a b => a.start < b.start := by
  induction lines generalizing offset with
  | nil => exact List.Pairwise.nil
  | cons x lines ih =>
      obtain ⟨_, _, hrest⟩ := h
      refine List.pairwise_cons.mpr ⟨?_, ih hrest⟩
      intro l hl
      have hle := (hrest.of_mem hl).2.1
      unfold Line.stop at hle
      omega

/-- A line of the file between the ends of a consecutive list is in the list. -/
theorem Consecutive.mem_of_isLine (h : Consecutive sep file offset lines)
    (hl : IsLine sep file l) (hstart : offset ≤ l.start) (hstop : l.stop ≤ stopOf offset lines) :
    l ∈ lines := by
  induction lines generalizing offset with
  | nil =>
      rw [stopOf, Line.stop] at hstop
      omega
  | cons x lines ih =>
      rcases h.2.1.eq_or_behind hl (h.1 ▸ hstart) with rfl | hbehind
      · exact List.mem_cons_self
      · exact List.mem_cons_of_mem _ (ih h.2.2 hbehind hstop)

/-! ## The splitting loop -/

variable [DecidableEq α]

/-- Walk a buffer cell by cell: `line` is what has been read since the last separator, which
the line at `start` follows. A rest without a separator is dropped. -/
def splitFrom (sep : α) : Nat → List α → List α → List (Line α)
  | _, _, [] => []
  | start, line, b :: rest =>
      if b = sep then ⟨start, line⟩ :: splitFrom sep (start + line.length + 1) [] rest
      else splitFrom sep start (line ++ [b]) rest

theorem splitFrom_consecutive {start : Nat} {line buf : List α} (hb : Boundary sep file start)
    (hline : sep ∉ line)
    (hfile : ∀ i < (line ++ buf).length, file[start + i]? = (line ++ buf)[i]?) :
    Consecutive sep file start (splitFrom sep start line buf) := by
  induction buf generalizing start line with
  | nil => trivial
  | cons b rest ih =>
      rw [splitFrom]
      split
      · rename_i hsep
        subst hsep
        have hl : IsLine b file ⟨start, line⟩ := by
          refine ⟨hb, fun i hi => ?_, ?_, hline⟩
          · refine (hfile i ?_).trans (getElem?_append_of_lt hi)
            rw [List.length_append]
            exact Nat.lt_add_right _ hi
          · refine (hfile line.length (by simp)).trans ?_
            simp
        refine ⟨rfl, hl, ih hl.boundary_stop (by simp) fun i hi => ?_⟩
        have := hfile (line.length + 1 + i) (by simp at hi ⊢; omega)
        rw [List.getElem?_append_right (by omega)] at this
        have hidx : line.length + 1 + i - line.length = i + 1 := by omega
        rw [hidx, List.getElem?_cons_succ] at this
        rw [List.nil_append, ← this]
        congr 1
        simp only [Line.stop]
        omega
      · rename_i hsep
        have happ : line ++ [b] ++ rest = line ++ b :: rest := by simp
        refine ih hb ?_ ?_
        · simp only [List.mem_append, List.mem_singleton, not_or]
          exact ⟨hline, fun h => hsep h.symm⟩
        · rw [happ]
          exact hfile

/-- A line found in a buffer fits into it, with its separator. -/
theorem length_of_mem_splitFrom {start : Nat} {line buf : List α}
    (h : l ∈ splitFrom sep start line buf) :
    l.cells.length + 1 ≤ line.length + buf.length := by
  induction buf generalizing start line with
  | nil => cases h
  | cons b rest ih =>
      rw [splitFrom] at h
      rw [List.length_cons]
      split at h
      · rcases List.mem_cons.mp h with rfl | h
        · simp only
          omega
        · have := ih h
          rw [List.length_nil] at this
          omega
      · have := ih h
        rw [List.length_append, List.length_singleton] at this
        omega

/-- The lines found in a buffer start one after the other. -/
theorem splitFrom_increasing {start : Nat} {line buf : List α} :
    (splitFrom sep start line buf).Pairwise (fun a b => a.start < b.start) ∧
      ∀ l ∈ splitFrom sep start line buf, start ≤ l.start := by
  induction buf generalizing start line with
  | nil => simp [splitFrom]
  | cons b rest ih =>
      rw [splitFrom]
      split
      · obtain ⟨hpair, hle⟩ : (splitFrom sep (start + line.length + 1) [] rest).Pairwise
            (fun a b => a.start < b.start) ∧
              ∀ l ∈ splitFrom sep (start + line.length + 1)
                [] rest, start + line.length + 1 ≤ l.start :=
          ih
        refine ⟨List.pairwise_cons.mpr ⟨fun l hl => ?_, hpair⟩, fun l hl => ?_⟩
        · have := hle l hl
          simp only
          omega
        · rcases List.mem_cons.mp hl with rfl | hl
          · exact le_rfl
          · have := hle l hl
            omega
      · exact ih

theorem splitFrom_eq_nil_iff {start : Nat} {line buf : List α} :
    splitFrom sep start line buf = [] ↔ sep ∉ buf := by
  induction buf generalizing start line with
  | nil => simp [splitFrom]
  | cons b rest ih =>
      rw [splitFrom]
      split
      · rename_i hsep
        simp [hsep]
      · rename_i hsep
        rw [ih]
        simp [Ne.symm hsep]

/-- A buffer read from a boundary of a file splits into consecutive lines of the file. -/
theorem consecutive_of_take_drop {n : Nat} (hb : Boundary sep file offset) :
    Consecutive sep file offset (splitFrom sep offset [] ((file.drop offset).take n)) := by
  refine splitFrom_consecutive hb (by simp) fun i hi => ?_
  simp only [List.nil_append, List.length_take] at hi ⊢
  rw [List.getElem?_take_of_lt (by omega), List.getElem?_drop]

end Sulion.Lines
