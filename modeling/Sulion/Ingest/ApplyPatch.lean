import Mathlib.Data.List.DropRight
import Sulion.Lib.Sections
import Sulion.Lib.TextLines
import Sulion.Rust.Json

set_option autoImplicit false

/-! # The files of an apply_patch text

`parse_apply_patch` in `ingest/canonical/tools.rs` reads a patch line by line. A line that starts
with three stars is a directive: it closes the entry that is open, and opens another one where it
names a file. The lines between are the diff of the open entry; where none is open they are left
out.

The patch itself is a list of regions: a file directive and the lines behind it, up to the next
file directive or the end of the patch. `NoLineLost` says that the entries of every region hold its
lines. A directive inside a region that the parser does not know, `*** Move to:` or
`*** End of File`, closes the entry all the same.
-/

namespace Sulion.Ingest.ApplyPatch

open Rust Sections

/-! ## The parser -/

/-- A line without the carriage return that it ends with. -/
def stripReturn (line : List Char) : List Char :=
  if line.getLast? = some '\r' then line.dropLast else line

/-- `str::lines`. -/
def lines (text : String) : List String :=
  let pieces := linesOf text.toList
  let ended := pieces.dropLast.map stripReturn
  let last := pieces.getLast?.toList.filter (· ≠ [])
  (ended ++ last).map String.ofList

/-- `str::trim_end_matches` with a character. -/
def trimEndMatches (text : String) (ch : Char) : String :=
  String.ofList (text.toList.rdropWhile (· = ch))

inductive Operation
  | update
  | add
  | delete
  | move
  deriving DecidableEq, Repr

def Operation.text : Operation → String
  | update => "update"
  | add => "add"
  | delete => "delete"
  | move => "move"

structure FileEditBuf where
  path : String
  operation : Operation
  oldPath : Option String
  diff : String
  deriving DecidableEq, Repr

def FileEditBuf.new (path : String) (operation : Operation) (oldPath : Option String) :
    FileEditBuf where
  path := path
  operation := operation
  oldPath := oldPath
  diff := ""

/-- A line of the diff. -/
def FileEditBuf.push (buf : FileEditBuf) (line : String) : FileEditBuf :=
  { buf with diff := buf.diff ++ line ++ "\n" }

def FileEditBuf.intoValue (buf : FileEditBuf) : Json :=
  let path := Json.insertField [] "path" (.str buf.path)
  let operation := Json.insertField path "operation" (.str buf.operation.text)
  let moved :=
    match buf.oldPath with
    | some oldPath => Json.insertField operation "old_path" (.str oldPath)
    | none => operation
  .obj (Json.insertField moved "diff" (.str (trimEndMatches buf.diff '\n')))

def splitMove (rest : String) : Option (String × String) :=
  match splitOnce rest " to " with
  | none => none
  | some (before, after) =>
      if trim before = "" ∨ trim after = "" then none else some (trim before, trim after)

/-- The entry that a directive opens. -/
def openEdit (header : String) : Option FileEditBuf :=
  if header = "Begin Patch" ∨ header = "End Patch" then none
  else
    match stripStart header "Update File: " with
    | some path => some (.new (trim path) .update none)
    | none =>
        match stripStart header "Add File: " with
        | some path => some (.new (trim path) .add none)
        | none =>
            match stripStart header "Delete File: " with
            | some path => some (.new (trim path) .delete none)
            | none =>
                match stripStart header "Move File: " with
                | some rest =>
                    let (source, target) := (splitMove rest).getD (trim rest, trim rest)
                    some (.new target .move (some source))
                | none => none

structure Parsing where
  entries : List Json
  current : Option FileEditBuf

/-- The body of the loop over the lines. -/
def readLine (st : Parsing) (line : String) : Parsing :=
  match stripStart line "*** " with
  | some header =>
      { entries := st.entries ++ (st.current.map FileEditBuf.intoValue).toList
        current := openEdit header }
  | none => { st with current := st.current.map fun buf => buf.push line }

/-- The entries once the last one is closed. -/
def Parsing.finish (st : Parsing) : List Json :=
  st.entries ++ (st.current.map FileEditBuf.intoValue).toList

/-- The entries of some lines. -/
def entriesOf (lines : List String) : List Json :=
  (lines.foldl readLine { entries := [], current := none }).finish

def parseApplyPatch (raw : String) : Json :=
  .obj (Json.insertField [] "file_edits" (.arr (entriesOf (lines raw))))

/-! ## The regions of a patch -/

def isDirective (line : String) : Bool := (stripStart line "*** ").isSome

/-- The directive names the file that the lines behind it are about. -/
def isFileDirective (line : String) : Bool :=
  startsWith line "*** Update File: " || startsWith line "*** Add File: " ||
    startsWith line "*** Delete File: "

def endsPatch (line : String) : Bool := decide (line = "*** End Patch")

/-- The directive opens an entry: one of the file directives, or a `*** Move File:`. -/
def opensEntry (line : String) : Bool :=
  isFileDirective line || startsWith line "*** Move File: "

/-- **A region**: a file directive and the lines up to the next file directive or the end of the
patch. -/
structure IsRegion (patch before : List String) (header : String) (body after : List String) :
    Prop where
  eq : patch = before ++ header :: body ++ after
  header : isFileDirective header = true
  body : ∀ line ∈ body, isFileDirective line = false ∧ endsPatch line = false
  after : ∀ line ∈ after.head?, isFileDirective line = true ∨ endsPatch line = true

/-- The file entries of the parsed patch. -/
def fileEdits (raw : String) : List Json :=
  (((parseApplyPatch raw).get "file_edits").bind Json.asArray).getD []

/-- The lines of the diff of a file entry. -/
def diffLines (entry : Json) : List String :=
  match entry.strAt "diff" with
  | none => []
  | some diff => if diff = "" then [] else TextLines.lines diff

/-- The lines of a region are the lines of the diffs of its own entries, in order. An entry is made
for every directive that opens one, so the entries of a region are those behind the ones opened
before it. -/
def RegionKept (entries : List Json) (before : List String) (header : String)
    (body : List String) : Prop :=
  ∃ earlier own later, entries = earlier ++ own ++ later ∧
    earlier.length = (before.filter opensEntry).length ∧
    own.length = ((header :: body).filter opensEntry).length ∧
    own.flatMap diffLines = body.filter fun line => !isDirective line

/-- Every line of a region is in exactly one diff. -/
def NoLineLost (raw : String) : Prop :=
  ∀ before header body after, IsRegion (lines raw) before header body after →
    RegionKept (fileEdits raw) before header body

/-- A directive whose lines are kept: it opens an entry, and the last of them is not empty. -/
def KeepsLines (part : String × List String) : Prop :=
  part.2 = [] ∨ opensEntry part.1 = true ∧ part.2.getLast? ≠ some ""

/-! ## Directives -/

theorem isSome_stripStart (text start : String) :
    (stripStart text start).isSome = startsWith text start := by
  unfold stripStart startsWith
  by_cases h : start.toList.isPrefixOf text.toList
  · rw [if_pos h, h, Option.isSome_some]
  · rw [if_neg h, Option.isSome_none, Bool.eq_false_iff.2 h]

theorem toList_of_stripStart {text start rest : String} (h : stripStart text start = some rest) :
    text.toList = start.toList ++ rest.toList := by
  unfold stripStart at h
  by_cases hstart : start.toList.isPrefixOf text.toList
  · rw [if_pos hstart] at h
    obtain ⟨tail, htail⟩ := List.isPrefixOf_iff_prefix.1 hstart
    have hrest : rest.toList = text.toList.drop start.length := by
      rw [← Option.some.inj h, String.toList_ofList]
    have hdrop : text.toList.drop start.length = tail := by
      rw [← htail, ← String.length_toList, List.drop_left]
    rw [hrest, hdrop, htail]
  · rw [if_neg hstart] at h
    exact absurd h (Option.some_ne_none rest).symm

/-- A text that starts with two texts in a row. -/
theorem startsWith_append {text start next both : String}
    (hboth : both.toList = start.toList ++ next.toList) :
    startsWith text both = (stripStart text start).any fun rest => startsWith rest next := by
  cases hrest : stripStart text start with
  | none =>
      have hnot : ¬start.toList <+: text.toList := by
        intro hstart
        have hsome := isSome_stripStart text start
        rw [hrest, startsWith, List.isPrefixOf_iff_prefix.2 hstart] at hsome
        exact Bool.false_ne_true hsome
      show startsWith text both = false
      rw [Bool.eq_false_iff]
      intro h
      have hbefore := List.isPrefixOf_iff_prefix.1 h
      rw [hboth] at hbefore
      exact hnot ((List.prefix_append _ _).trans hbefore)
  | some rest =>
      show startsWith text both = startsWith rest next
      rw [Bool.eq_iff_iff, startsWith, startsWith, List.isPrefixOf_iff_prefix,
        List.isPrefixOf_iff_prefix, hboth, toList_of_stripStart hrest]
      exact List.prefix_append_right_inj _

theorem isSome_openEdit (header : String) :
    (openEdit header).isSome =
      (startsWith header "Update File: " || startsWith header "Add File: " ||
        startsWith header "Delete File: " || startsWith header "Move File: ") := by
  simp only [← isSome_stripStart]
  unfold openEdit
  by_cases hpatch : header = "Begin Patch" ∨ header = "End Patch"
  · rw [if_pos hpatch]
    rcases hpatch with rfl | rfl <;> decide
  · rw [if_neg hpatch]
    cases stripStart header "Update File: " <;> cases stripStart header "Add File: " <;>
      cases stripStart header "Delete File: " <;> cases stripStart header "Move File: " <;> rfl

/-- The entry that a line opens. -/
def opened (line : String) : Option FileEditBuf := (stripStart line "*** ").bind openEdit

/-- The lines that open an entry are those that name a file. -/
theorem isSome_opened (line : String) : (opened line).isSome = opensEntry line := by
  unfold opensEntry isFileDirective opened
  rw [@startsWith_append line "*** " "Update File: " _ (by decide),
    @startsWith_append line "*** " "Add File: " _ (by decide),
    @startsWith_append line "*** " "Delete File: " _ (by decide),
    @startsWith_append line "*** " "Move File: " _ (by decide)]
  cases stripStart line "*** " with
  | none => rfl
  | some header => exact isSome_openEdit header

theorem diff_of_opened {line : String} {buf : FileEditBuf} (h : opened line = some buf) :
    buf.diff = "" := by
  unfold opened at h
  cases hline : stripStart line "*** " with
  | none => rw [hline] at h; exact absurd h (Option.some_ne_none buf).symm
  | some header =>
      rw [hline, Option.bind_some, openEdit] at h
      split_ifs at h
      split at h
      · rw [← Option.some.inj h, FileEditBuf.new]
      · split at h
        · rw [← Option.some.inj h, FileEditBuf.new]
        · split at h
          · rw [← Option.some.inj h, FileEditBuf.new]
          · split at h
            · rw [← Option.some.inj h, FileEditBuf.new]
            · exact absurd h (Option.some_ne_none buf).symm

theorem isDirective_of_opensEntry {line : String} (h : opensEntry line = true) :
    isDirective line = true := by
  rw [← isSome_opened, opened] at h
  cases hline : stripStart line "*** " with
  | none => rw [hline] at h; exact absurd h Bool.false_ne_true
  | some header => rw [isDirective, hline, Option.isSome_some]

theorem isDirective_of_isFileDirective {line : String} (h : isFileDirective line = true) :
    isDirective line = true := by
  apply isDirective_of_opensEntry
  rw [opensEntry, h, Bool.true_or]

theorem isDirective_of_endsPatch {line : String} (h : endsPatch line = true) :
    isDirective line = true := by
  rw [of_decide_eq_true h]
  decide

/-! ## The entries of the sections -/

/-- The entry of a section. -/
def entryOf (part : String × List String) : Option Json :=
  (opened part.1).map fun buf => (part.2.foldl FileEditBuf.push buf).intoValue

theorem isSome_entryOf (part : String × List String) :
    (entryOf part).isSome = opensEntry part.1 := by
  rw [entryOf, Option.isSome_map, isSome_opened]

/-- What the loop makes of some lines: the open entry takes those up to the first directive, and
every section adds its own. -/
theorem finish_foldl (lines : List String) (st : Parsing) :
    (lines.foldl readLine st).finish =
      st.entries ++ (st.current.map fun buf =>
          ((front isDirective lines).foldl FileEditBuf.push buf).intoValue).toList ++
        (sections isDirective lines).filterMap entryOf := by
  induction lines generalizing st with
  | nil => simp [Parsing.finish]
  | cons line lines ih =>
      rw [List.foldl_cons, ih]
      cases hline : stripStart line "*** " with
      | none =>
          have hunmarked : isDirective line = false := by rw [isDirective, hline]; rfl
          have hread : readLine st line =
              { st with current := st.current.map fun buf => buf.push line } := by
            rw [readLine, hline]
          rw [sections_of_unmarked hunmarked, front_of_unmarked hunmarked, hread,
            Option.map_map]
          rfl
      | some header =>
          have hmark : isDirective line = true := by rw [isDirective, hline]; rfl
          have hread : readLine st line =
              { entries := st.entries ++ (st.current.map FileEditBuf.intoValue).toList
                current := openEdit header } := by
            rw [readLine, hline]
          have hopened : opened line = openEdit header := by rw [opened, hline]; rfl
          have hentry : (openEdit header).map (fun buf =>
              ((front isDirective lines).foldl FileEditBuf.push buf).intoValue) =
              entryOf (line, front isDirective lines) := by rw [entryOf, hopened]
          rw [sections_of_mark hmark, front_of_mark hmark, hread, hentry, List.append_assoc]
          congr 1
          cases hsome : entryOf (line, front isDirective lines) with
          | none => rw [List.filterMap_cons_none hsome]; rfl
          | some entry => rw [List.filterMap_cons_some hsome]; rfl

theorem entriesOf_eq (lines : List String) :
    entriesOf lines = (sections isDirective lines).filterMap entryOf := finish_foldl lines _

theorem entriesOf_append {before after : List String} (h : AtMark isDirective after) :
    entriesOf (before ++ after) = entriesOf before ++ entriesOf after := by
  rw [entriesOf_eq, entriesOf_eq, entriesOf_eq, sections_append h, List.filterMap_append]

/-- An entry for every line that opens one. -/
theorem length_entriesOf (lines : List String) :
    (entriesOf lines).length = (lines.filter opensEntry).length := by
  have hfilter : lines.filter opensEntry =
      ((sections isDirective lines).map Prod.fst).filter opensEntry := by
    rw [map_fst_sections, List.filter_filter]
    apply List.filter_congr
    intro line _
    by_cases hline : opensEntry line = true
    · rw [hline, isDirective_of_opensEntry hline]; rfl
    · rw [Bool.eq_false_iff.2 hline, Bool.false_and]
  rw [entriesOf_eq, hfilter, List.filter_map, List.length_map, List.length_filterMap_eq_countP,
    ← List.countP_eq_length_filter]
  apply List.countP_congr
  intro part _
  rw [isSome_entryOf]
  rfl

theorem fileEdits_eq (raw : String) : fileEdits raw = entriesOf (lines raw) := rfl

/-! ## The lines of a diff -/

/-- The characters of the lines, each with a line feed. -/
def pushed (lines : List String) : List Char := lines.flatMap fun line => line.toList ++ ['\n']

theorem toList_diff_foldl (lines : List String) (buf : FileEditBuf) :
    (lines.foldl FileEditBuf.push buf).diff.toList = buf.diff.toList ++ pushed lines := by
  induction lines generalizing buf with
  | nil => simp [pushed]
  | cons line lines ih =>
      rw [List.foldl_cons, ih]
      simp [pushed, FileEditBuf.push]

theorem toList_unlines_concat (lines : List String) (last : String) :
    (TextLines.unlines (lines ++ [last])).toList = pushed lines ++ last.toList := by
  induction lines with
  | nil => simp [pushed]
  | cons line lines ih =>
      have hne : lines ++ [last] ≠ [] := by simp
      rw [List.cons_append, TextLines.unlines, String.intercalate_cons_of_ne_nil hne]
      rw [TextLines.unlines] at ih
      rw [String.toList_append, String.toList_append, ih]
      simp [pushed]

/-- Trimming the line feeds at the end of the text takes the empty lines at the end away. -/
theorem rdropWhile_pushed {lines : List String}
    (hplain : ∀ line ∈ lines, TextLines.Plain line) :
    (pushed lines).rdropWhile (· = '\n') =
      (TextLines.unlines (lines.rdropWhile (· = ""))).toList := by
  induction lines using List.reverseRecOn with
  | nil => rfl
  | append_singleton lines last ih =>
      have hpushed : pushed (lines ++ [last]) = (pushed lines ++ last.toList) ++ ['\n'] := by
        simp [pushed]
      rw [hpushed, List.rdropWhile_concat_pos _ _ _ (by simp)]
      by_cases hlast : last = ""
      · rw [List.rdropWhile_concat_pos _ _ _ (by simpa using hlast), hlast]
        have hempty : pushed lines ++ "".toList = pushed lines := by simp
        rw [hempty]
        exact ih fun line hline => hplain line (List.mem_append_left _ hline)
      · rw [List.rdropWhile_concat_neg _ _ _ (by simpa using hlast), toList_unlines_concat]
        have hchars : last.toList ≠ [] := by simpa using hlast
        obtain ⟨init, ch, hinit⟩ := (List.eq_nil_or_concat last.toList).resolve_left hchars
        have hch : ch ≠ '\n' := by
          intro heq
          apply hplain last (by simp)
          rw [hinit, heq]
          simp
        rw [hinit, List.concat_eq_append, ← List.append_assoc]
        exact List.rdropWhile_concat_neg _ _ _ (by simpa using hch)

/-- The member that was inserted last. -/
theorem get_insertField (fields : List (String × Json)) (key : String) (value : Json) :
    (Json.obj (Json.insertField fields key value)).get key = some value := by
  have hnone : (fields.filter fun f => decide (f.1 < key)).lookup key = none := by
    rw [List.lookup_eq_none_iff]
    intro f hf
    have hlt : f.1 < key := by simpa using (List.mem_filter.1 hf).2
    have hne : key ≠ f.1 := by
      intro heq
      rw [← heq] at hlt
      exact String.lt_irrefl key hlt
    simpa using hne
  show (Json.insertField fields key value).lookup key = some value
  rw [Json.insertField, List.lookup_append, hnone, Option.none_or, List.lookup_cons_self]

theorem diffLines_intoValue (buf : FileEditBuf) :
    diffLines buf.intoValue =
      if trimEndMatches buf.diff '\n' = "" then []
      else TextLines.lines (trimEndMatches buf.diff '\n') := by
  have hdiff : buf.intoValue.strAt "diff" = some (trimEndMatches buf.diff '\n') := by
    rw [Json.strAt, FileEditBuf.intoValue, get_insertField]
    rfl
  rw [diffLines, hdiff]

/-- The diff of an entry has the lines pushed, without the empty ones at the end. -/
theorem diffLines_foldl {lines : List String} (hplain : ∀ line ∈ lines, TextLines.Plain line)
    {buf : FileEditBuf} (hbuf : buf.diff = "") :
    diffLines (lines.foldl FileEditBuf.push buf).intoValue = lines.rdropWhile (· = "") := by
  have htrimmed : trimEndMatches (lines.foldl FileEditBuf.push buf).diff '\n' =
      TextLines.unlines (lines.rdropWhile (· = "")) := by
    apply String.toList_injective
    rw [trimEndMatches, String.toList_ofList, toList_diff_foldl, hbuf, ← rdropWhile_pushed hplain]
    rfl
  rw [diffLines_intoValue, htrimmed]
  by_cases hnil : lines.rdropWhile (· = "") = []
  · rw [hnil]
    rfl
  · have hlast := List.rdropWhile_last_not _ _ hnil
    have hne : TextLines.unlines (lines.rdropWhile (· = "")) ≠ "" := by
      intro heq
      rw [← List.dropLast_append_getLast hnil] at heq
      have hchars := congrArg String.toList heq
      rw [toList_unlines_concat] at hchars
      simp_all
    rw [if_neg hne]
    apply TextLines.lines_unlines_of_plain _ hnil
    intro line hline
    exact hplain line ((List.rdropWhile_prefix _ _).subset hline)

/-! ## The lines of the patch -/

theorem plain_of_mem_linesOf {chars piece : List Char} (h : piece ∈ linesOf chars) :
    '\n' ∉ piece := by
  induction chars generalizing piece with
  | nil =>
      obtain rfl : piece = [] := by simpa [linesOf] using h
      exact List.not_mem_nil
  | cons ch chars ih =>
      rw [linesOf] at h
      by_cases hch : ch = '\n'
      · rw [if_pos hch, List.mem_cons] at h
        rcases h with rfl | h
        · exact List.not_mem_nil
        · exact ih h
      · rw [if_neg hch] at h
        cases hrest : linesOf chars with
        | nil =>
            rw [hrest] at h
            obtain rfl : piece = [ch] := by simpa using h
            simpa using fun heq => hch heq.symm
        | cons first rest =>
            rw [hrest, List.mem_cons] at h
            rcases h with rfl | h
            · have hfirst := ih (hrest ▸ List.mem_cons_self : first ∈ linesOf chars)
              rw [List.mem_cons, not_or]
              exact ⟨fun heq => hch heq.symm, hfirst⟩
            · exact ih (hrest ▸ List.mem_cons_of_mem _ h)

theorem plain_of_mem_lines {raw line : String} (h : line ∈ lines raw) : TextLines.Plain line := by
  unfold lines at h
  obtain ⟨chars, hchars, rfl⟩ := List.mem_map.1 h
  unfold TextLines.Plain
  rw [String.toList_ofList]
  rcases List.mem_append.1 hchars with hmem | hmem
  · obtain ⟨piece, hpiece, rfl⟩ := List.mem_map.1 hmem
    have hplain := plain_of_mem_linesOf (List.dropLast_subset _ hpiece)
    unfold stripReturn
    by_cases hreturn : piece.getLast? = some '\r'
    · rw [if_pos hreturn]
      exact fun hin => hplain (List.dropLast_subset _ hin)
    · rw [if_neg hreturn]
      exact hplain
  · have hlast := List.mem_of_getLast? (Option.mem_toList.1 (List.mem_filter.1 hmem).1)
    exact plain_of_mem_linesOf hlast

/-! ## What is lost -/

/-- The lines that a section has in the diffs. -/
def keptOf (part : String × List String) : List String :=
  (entryOf part).toList.flatMap diffLines

theorem flatMap_diffLines_entriesOf (lines : List String) :
    (entriesOf lines).flatMap diffLines = (sections isDirective lines).flatMap keptOf := by
  rw [entriesOf_eq]
  induction sections isDirective lines with
  | nil => rfl
  | cons part parts ih =>
      rw [List.flatMap_cons, ← ih, keptOf]
      cases hpart : entryOf part with
      | none => rw [List.filterMap_cons_none hpart]; rfl
      | some entry => rw [List.filterMap_cons_some hpart]; simp

theorem keptOf_opened {part : String × List String}
    (hplain : ∀ line ∈ part.2, TextLines.Plain line) (hopens : opensEntry part.1 = true) :
    keptOf part = part.2.rdropWhile (· = "") := by
  rw [← isSome_opened, Option.isSome_iff_exists] at hopens
  obtain ⟨buf, hbuf⟩ := hopens
  have hempty : buf.diff = "" := diff_of_opened hbuf
  rw [keptOf, entryOf, hbuf]
  simpa using diffLines_foldl hplain hempty

theorem keptOf_unopened {part : String × List String} (hopens : opensEntry part.1 = false) :
    keptOf part = [] := by
  rw [← isSome_entryOf, Option.isSome_eq_false_iff, Option.isNone_iff_eq_none] at hopens
  rw [keptOf, hopens]
  rfl

theorem keptOf_sublist {part : String × List String}
    (hplain : ∀ line ∈ part.2, TextLines.Plain line) : (keptOf part).Sublist part.2 := by
  by_cases hopens : opensEntry part.1 = true
  · rw [keptOf_opened hplain hopens]
    exact (List.rdropWhile_prefix _ _).sublist
  · rw [keptOf_unopened (by simpa using hopens)]
    exact List.nil_sublist _

theorem keptOf_eq_iff {part : String × List String}
    (hplain : ∀ line ∈ part.2, TextLines.Plain line) : keptOf part = part.2 ↔ KeepsLines part := by
  unfold KeepsLines
  by_cases hopens : opensEntry part.1 = true
  · rw [keptOf_opened hplain hopens, List.rdropWhile_eq_self_iff]
    constructor
    · intro hlast
      by_cases hnil : part.2 = []
      · exact Or.inl hnil
      · refine Or.inr ⟨hopens, ?_⟩
        rw [List.getLast?_eq_some_getLast hnil]
        intro heq
        exact hlast hnil (by simpa using Option.some.inj heq)
    · rintro (hnil | ⟨-, hlast⟩) hne
      · exact absurd hnil hne
      · rw [List.getLast?_eq_some_getLast hne] at hlast
        intro heq
        exact hlast (congrArg some (by simpa using heq))
  · rw [keptOf_unopened (by simpa using hopens)]
    constructor
    · intro heq
      exact Or.inl heq.symm
    · rintro (hnil | ⟨hyes, -⟩)
      · exact hnil.symm
      · exact absurd hyes hopens

/-! ## Regions -/

theorem IsRegion.atMark {patch before body after : List String} {header : String}
    (h : IsRegion patch before header body after) :
    AtMark isDirective (header :: (body ++ after)) ∧ AtMark isDirective after := by
  constructor
  · intro line hline
    obtain rfl : header = line := by simpa using hline
    exact isDirective_of_isFileDirective h.header
  · intro line hline
    rcases h.after line hline with hfile | hend
    · exact isDirective_of_isFileDirective hfile
    · exact isDirective_of_endsPatch hend

/-- The entries of a patch are those in front of a region, its own and those behind it. -/
theorem IsRegion.entries {patch before body after : List String} {header : String}
    (h : IsRegion patch before header body after) :
    entriesOf patch = entriesOf before ++ entriesOf (header :: body) ++ entriesOf after := by
  rw [h.eq, List.append_assoc, List.cons_append, entriesOf_append h.atMark.1, ← List.cons_append,
    entriesOf_append h.atMark.2, List.append_assoc]

theorem IsRegion.filter_body {patch before body after : List String} {header : String}
    (h : IsRegion patch before header body after) :
    (body.filter fun line => !isDirective line) =
      (sections isDirective (header :: body)).flatMap Prod.snd := by
  have hheader := isDirective_of_isFileDirective h.header
  have hfilter : ((header :: body).filter fun line => !isDirective line) = _ :=
    filter_unmarked (header :: body)
  rw [front_of_mark hheader, List.nil_append] at hfilter
  rw [← hfilter, List.filter_cons_of_neg (by simp [hheader])]

/-- A region is kept exactly when every directive in it keeps the lines behind it. -/
theorem IsRegion.kept_iff {raw header : String} {before body after : List String}
    (hregion : IsRegion (lines raw) before header body after) :
    RegionKept (fileEdits raw) before header body ↔
      ∀ part ∈ sections isDirective (header :: body), KeepsLines part := by
  have hplain : ∀ part ∈ sections isDirective (header :: body),
      ∀ line ∈ part.2, TextLines.Plain line := by
    intro part hpart line hline
    have hbody := (mem_of_mem_sections hpart).2 line hline
    have hpatch : line ∈ lines raw := by
      rw [hregion.eq]
      exact List.mem_append_left _ (List.mem_append_right _ hbody)
    exact plain_of_mem_lines hpatch
  have hparts : (entriesOf (header :: body)).flatMap diffLines =
        (body.filter fun line => !isDirective line) ↔
      ∀ part ∈ sections isDirective (header :: body), KeepsLines part := by
    rw [flatMap_diffLines_entriesOf, hregion.filter_body,
      flatMap_eq_iff fun part hpart => keptOf_sublist (hplain part hpart)]
    exact forall_congr' fun part => imp_congr_right fun hpart => keptOf_eq_iff (hplain part hpart)
  rw [← hparts, fileEdits_eq, hregion.entries]
  constructor
  · rintro ⟨earlier, own, later, heq, hearlier, hown, hlines⟩
    -- The lengths leave one choice for the entries of the region.
    rw [← length_entriesOf] at hearlier hown
    rw [List.append_assoc, List.append_assoc] at heq
    obtain ⟨-, hrest⟩ := List.append_inj heq hearlier.symm
    obtain ⟨hsame, -⟩ := List.append_inj hrest hown.symm
    rw [hsame]
    exact hlines
  · intro hlines
    exact ⟨entriesOf before, entriesOf (header :: body), entriesOf after, rfl,
      length_entriesOf before, length_entriesOf (header :: body), hlines⟩

/-- **No line of a patch is lost** exactly when every directive with lines behind it, from the
first file directive on to the end of the patch, opens an entry, and the last of these lines is not
empty. -/
theorem no_line_lost_iff (raw : String) :
    NoLineLost raw ↔
      ∀ before header body after, IsRegion (lines raw) before header body after →
        ∀ part ∈ sections isDirective (header :: body), KeepsLines part := by
  unfold NoLineLost
  constructor
  · intro hkept before header body after hregion
    exact hregion.kept_iff.1 (hkept before header body after hregion)
  · intro hkeeps before header body after hregion
    exact hregion.kept_iff.2 (hkeeps before header body after hregion)

/-- A file that is moved and changed: the lines behind `*** Move to:` are in no diff. -/
def movedPatch : String :=
  "*** Begin Patch\n*** Update File: a.rs\n*** Move to: b.rs\n@@\n-old\n+new\n*** End Patch\n"

theorem movedPatch_loses_lines : ¬NoLineLost movedPatch := by
  intro hkept
  have hregion : IsRegion (lines movedPatch) ["*** Begin Patch"] "*** Update File: a.rs"
      ["*** Move to: b.rs", "@@", "-old", "+new"] ["*** End Patch"] := by
    refine ⟨by decide +kernel, by decide +kernel, by decide +kernel, by decide +kernel⟩
  have hmove : ("*** Move to: b.rs", ["@@", "-old", "+new"]) ∈ sections isDirective
      ("*** Update File: a.rs" :: ["*** Move to: b.rs", "@@", "-old", "+new"]) := by
    decide +kernel
  rcases hregion.kept_iff.1 (hkept _ _ _ _ hregion) _ hmove with hnil | ⟨hopens, -⟩
  · exact absurd hnil (by decide)
  · exact absurd hopens (by decide +kernel)

end Sulion.Ingest.ApplyPatch
