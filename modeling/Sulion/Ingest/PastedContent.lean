import Mathlib.Data.List.GetD
import Sulion.Rust.SplitLines
import Sulion.Rust.Text

set_option autoImplicit false

/-! # Pasted content in user texts

`normalize_user_text` takes out the lines that the harness puts around a pasted body. It goes over
the lines once, with the code fence it is in and the paste it is in. The fences of a pasted body are
followed like the others: a body that leaves a fence open hides its own closing delimiter.
-/

namespace Sulion.Ingest.PastedContent

open Rust

abbrev Line := List Char

/-! ## The scan -/

def trimmed (line : Line) : List Char := (trim (String.ofList line)).toList

def isFence (t : List Char) : Bool :=
  "```".toList.isPrefixOf t || "~~~".toList.isPrefixOf t

/-- An open code fence: its marker and how often it stands. -/
abbrev Fence := Option (Char × Nat)

/-- The fence behind a line that begins with a fence's marker. -/
def nextFence (fence : Fence) (t : List Char) : Fence :=
  let marker := t.headD '~'
  let length := (t.takeWhile (· = marker)).length
  let closes : Bool :=
    match fence with
    | some (opened, size) => opened == marker && decide (size ≤ length)
    | none => false
  if closes && (trimmed (t.drop length)).isEmpty then none
  else if fence = none then some (marker, length)
  else fence

def openingStart : List Char := "<pasted_content id=\"".toList

def openingStop : List Char := "\">".toList

/-- The closing delimiter of a paste. -/
def closing (id : List Char) : List Char :=
  "</pasted_content id=\"".toList ++ id ++ "\">".toList

def isIdChar (c : Char) : Bool :=
  c.isAlphanum || c = '-' || c = '_'

/-- The id of an opening delimiter. -/
def openingId (t : List Char) : Option (List Char) :=
  if openingStart.isPrefixOf t then
    let rest := t.drop openingStart.length
    if openingStop.isSuffixOf rest then
      let id := rest.take (rest.length - openingStop.length)
      if id ≠ [] ∧ id.all isIdChar then some id else none
    else none
  else none

/-- Where the scan is, and the lines it has marked. -/
structure Scan where
  fence : Fence
  opening : Option (Nat × List Char)
  remove : Nat → Bool

def Scan.start : Scan := ⟨none, none, fun _ => false⟩

def scanLine (index : Nat) (s : Scan) (line : Line) : Scan :=
  let t := trimmed line
  if isFence t then { s with fence := nextFence s.fence t }
  else if s.fence.isSome then s
  else
    match s.opening with
    | some (start, id) =>
        if t = closing id then
          { s with
            remove := Function.update (Function.update s.remove start true) index true
            opening := none }
        else s
    | none =>
        match openingId t with
        | some id => { s with opening := some (index, id) }
        | none => s

def scan : Nat → Scan → List Line → Scan
  | _, s, [] => s
  | index, s, line :: lines => scan (index + 1) (scanLine index s line) lines

/-- The lines from some index on that are not marked. -/
def kept (remove : Nat → Bool) : Nat → List Line → List Line
  | _, [] => []
  | index, line :: lines =>
      if remove index then kept remove (index + 1) lines
      else line :: kept remove (index + 1) lines

def isLineEnd (c : Char) : Bool := c = '\r' || c = '\n'

def normalizeUserText (text : String) : String :=
  let lines := splitInclusive text.toList
  let remove := (scan 0 .start lines).remove
  if (List.range lines.length).any remove then
    trimMatches (String.ofList (kept remove 0 lines).flatten) isLineEnd
  else text

/-! ## Texts with pastes -/

/-- A pasted body between its delimiters, each on a line of its own. -/
structure Paste where
  id : List Char
  openLine : Line
  body : List Line
  closeLine : Line
  id_ok : id ≠ [] ∧ id.all isIdChar = true
  opens : trimmed openLine = openingStart ++ id ++ openingStop
  closes : trimmed closeLine = closing id

inductive Block
  | plain (lines : List Line)
  | paste (p : Paste)

def Block.lines : Block → List Line
  | .plain lines => lines
  | .paste p => p.openLine :: (p.body ++ [p.closeLine])

/-- The lines that are to stay. -/
def Block.content : Block → List Line
  | .plain lines => lines
  | .paste p => p.body

/-- Which lines are to go. -/
def Block.marks : Block → List Bool
  | .plain lines => lines.map fun _ => false
  | .paste p => true :: ((p.body.map fun _ => false) ++ [true])

/-- The fence behind a line. -/
def fenceLine (fence : Fence) (line : Line) : Fence :=
  if isFence (trimmed line) then nextFence fence (trimmed line) else fence

def fenceAfter (fence : Fence) (lines : List Line) : Fence := lines.foldl fenceLine fence

/-- A segment without delimiters, whose fences are closed in it. -/
def Segment (lines : List Line) : Prop :=
  (∀ line ∈ lines, openingId (trimmed line) = none ∧ ∀ id, trimmed line ≠ closing id) ∧
    fenceAfter none lines = none

/-- The pieces that a text is split into: each ends with its line feed, and the last one need not.
-/
def Pieces (lines : List Line) : Prop :=
  (∀ line ∈ lines.dropLast, IsLine line) ∧
    ∀ line ∈ lines.getLast?, IsLine line ∨ ('\n' ∉ line ∧ line ≠ [])

/-- A text of segments and pastes. -/
structure Document where
  blocks : List Block
  pieces : Pieces (blocks.flatMap Block.lines)
  segments : ∀ lines, .plain lines ∈ blocks → Segment lines

def Document.text (doc : Document) : String :=
  String.ofList (doc.blocks.flatMap Block.lines).flatten

/-- The segments and bodies in order, with the line breaks at the two ends trimmed; without a paste
nothing is touched. -/
def Document.unwrapped (doc : Document) : String :=
  if (doc.blocks.flatMap Block.marks).any (·) then
    trimMatches (String.ofList (doc.blocks.flatMap Block.content).flatten) isLineEnd
  else doc.text

/-- The delimiter lines are the ones that are taken out, and what is left is the result. -/
structure Document.UnwrappedExactly (doc : Document) : Prop where
  lines : ∀ index, (scan 0 .start (splitInclusive doc.text.toList)).remove index =
    (doc.blocks.flatMap Block.marks).getD index false
  result : normalizeUserText doc.text = doc.unwrapped

/-- Outside of the fences of the body there is a line that reads as its closing delimiter. -/
def closesEarly (id : List Char) : Fence → List Line → Prop
  | _, [] => False
  | fence, line :: lines =>
      (isFence (trimmed line) = false ∧ fence = none ∧ trimmed line = closing id) ∨
        closesEarly id (fenceLine fence line) lines

/-- A body that leaves no fence open and does not read as closed before its end. -/
def Paste.Closed (p : Paste) : Prop :=
  fenceAfter none p.body = none ∧ ¬ closesEarly p.id none p.body

/-- No line opens a paste that a later line closes. -/
def Unpaired (text : String) : Prop :=
  ∀ (i j : Nat) (id : List Char), i < j →
    (∀ line, (splitInclusive text.toList)[i]? = some line → openingId (trimmed line) ≠ some id) ∨
      ∀ line, (splitInclusive text.toList)[j]? = some line → trimmed line ≠ closing id

/-! ## Lines -/

variable {s : Scan} {index j : Nat} {line : Line} {lines rest : List Line} {id : List Char}

theorem openingId_opening (h : id ≠ [] ∧ id.all isIdChar = true) :
    openingId (openingStart ++ id ++ openingStop) = some id := by
  have hpre : openingStart.isPrefixOf (openingStart ++ id ++ openingStop) = true := by
    rw [List.isPrefixOf_iff_prefix, List.append_assoc]
    exact List.prefix_append _ _
  have hdrop : (openingStart ++ id ++ openingStop).drop openingStart.length =
      id ++ openingStop := by
    rw [List.append_assoc, List.drop_left]
  have hsuf : openingStop.isSuffixOf (id ++ openingStop) = true := by
    rw [List.isSuffixOf_iff_suffix]
    exact List.suffix_append _ _
  have htake : (id ++ openingStop).take ((id ++ openingStop).length - openingStop.length) = id := by
    rw [List.length_append, Nat.add_sub_cancel, List.take_left]
  simp only [openingId, hpre, hdrop, hsuf, htake, if_true]
  rw [if_pos h]

/-- A delimiter is no fence: it begins with `<`. -/
theorem isFence_of_lt {t : List Char} (h : t.head? = some '<') : isFence t = false := by
  cases t with
  | nil => cases h
  | cons c t =>
      obtain rfl : c = '<' := Option.some.inj h
      rfl

theorem isFence_opening (id : List Char) :
    isFence (openingStart ++ id ++ openingStop) = false := isFence_of_lt rfl

theorem isFence_closing (id : List Char) : isFence (closing id) = false := isFence_of_lt rfl

theorem fenceAfter_nil (fence : Fence) : fenceAfter fence [] = fence := rfl

theorem fenceAfter_cons (fence : Fence) (line : Line) (lines : List Line) :
    fenceAfter fence (line :: lines) = fenceAfter (fenceLine fence line) lines := by
  rw [fenceAfter, fenceAfter, List.foldl_cons]

theorem scan_cons (index : Nat) (s : Scan) (line : Line) (lines : List Line) :
    scan index s (line :: lines) = scan (index + 1) (scanLine index s line) lines := rfl

theorem scan_append (lines rest : List Line) (index : Nat) (s : Scan) :
    scan index s (lines ++ rest) = scan (index + lines.length) (scan index s lines) rest := by
  induction lines generalizing index s with
  | nil => rfl
  | cons line lines ih =>
      rw [List.cons_append, scan_cons, scan_cons, ih, List.length_cons, Nat.add_right_comm,
        Nat.add_assoc]

/-- What a line does to the marks: at most its own is set, and that of the opening line. -/
theorem scanLine_remove (index : Nat) (s : Scan) (line : Line) :
    (scanLine index s line).remove = s.remove ∨
      ∃ start id, s.opening = some (start, id) ∧ trimmed line = closing id ∧
        (scanLine index s line).remove =
          Function.update (Function.update s.remove start true) index true := by
  unfold scanLine
  dsimp only
  split
  · exact .inl rfl
  · split
    · exact .inl rfl
    · split
      · rename_i start id hopening
        split
        · rename_i hclose
          exact .inr ⟨start, id, hopening, hclose, rfl⟩
        · exact .inl rfl
      · split <;> exact .inl rfl

theorem scanLine_opening (index : Nat) (s : Scan) (line : Line) :
    (scanLine index s line).opening = s.opening ∨ (scanLine index s line).opening = none ∨
      ∃ id, openingId (trimmed line) = some id ∧
        (scanLine index s line).opening = some (index, id) := by
  unfold scanLine
  dsimp only
  split
  · exact .inl rfl
  · split
    · exact .inl rfl
    · split
      · split
        · exact .inr (.inl rfl)
        · exact .inl rfl
      · split
        · rename_i id hid
          exact .inr (.inr ⟨id, hid, rfl⟩)
        · exact .inl rfl

/-- A mark that is set stays set. -/
theorem remove_scan_of_remove (h : s.remove j = true) (index : Nat) (lines : List Line) :
    (scan index s lines).remove j = true := by
  induction lines generalizing index s with
  | nil => exact h
  | cons line lines ih =>
      refine ih ?_ _
      rcases scanLine_remove index s line with heq | ⟨start, id, -, -, heq⟩
      · rw [heq]
        exact h
      · rw [heq, Function.update_apply, Function.update_apply, h]
        simp

/-- A line that is behind the scan and does not open the paste keeps its mark. -/
theorem remove_scan_behind (hj : j < index) (hopening : ∀ id, s.opening ≠ some (j, id))
    (lines : List Line) : (scan index s lines).remove j = s.remove j := by
  induction lines generalizing index s with
  | nil => rfl
  | cons line lines ih =>
      have hremove : (scanLine index s line).remove j = s.remove j := by
        rcases scanLine_remove index s line with heq | ⟨start, id, hstart, -, heq⟩
        · rw [heq]
        · have hne : j ≠ start := fun h => hopening id (h ▸ hstart)
          rw [heq, Function.update_of_ne (by omega), Function.update_of_ne hne]
      refine (ih (by omega) fun id hid => ?_).trans hremove
      rcases scanLine_opening index s line with heq | heq | ⟨other, -, heq⟩
      · exact hopening id (heq ▸ hid)
      · rw [heq] at hid
        cases hid
      · rw [heq] at hid
        have := (Prod.mk.inj (Option.some.inj hid)).1
        omega

/-! ## Blocks -/

/-- A segment leaves the scan as it was. -/
theorem scan_segment {remove : Nat → Bool} {fence : Fence}
    (hlines : ∀ line ∈ lines, openingId (trimmed line) = none) (index : Nat) :
    scan index ⟨fence, none, remove⟩ lines = ⟨fenceAfter fence lines, none, remove⟩ := by
  induction lines generalizing index fence with
  | nil => rfl
  | cons line lines ih =>
      have hstep :
          scanLine index ⟨fence, none, remove⟩ line = ⟨fenceLine fence line, none, remove⟩ := by
        unfold scanLine fenceLine
        dsimp only
        split
        · rfl
        · rw [hlines line List.mem_cons_self]
          split <;> rfl
      rw [scan_cons, hstep, ih fun l hl => hlines l (List.mem_cons_of_mem _ hl), fenceAfter_cons]

/-- A body that does not read as closed leaves the paste open, in the fence it ends in. -/
theorem scan_body {fence : Fence} (remove : Nat → Bool) (start index : Nat)
    (hbody : ¬ closesEarly id fence lines) :
    scan index ⟨fence, some (start, id), remove⟩ lines =
      ⟨fenceAfter fence lines, some (start, id), remove⟩ := by
  induction lines generalizing index fence with
  | nil => rfl
  | cons line lines ih =>
      rw [closesEarly, not_or] at hbody
      have hstep : scanLine index ⟨fence, some (start, id), remove⟩ line =
          ⟨fenceLine fence line, some (start, id), remove⟩ := by
        unfold scanLine fenceLine
        dsimp only
        split
        · rfl
        · rename_i hfence
          cases fence with
          | some _ => rfl
          | none =>
              have hopen : trimmed line ≠ closing id := fun heq =>
                hbody.1 ⟨by simpa using hfence, rfl, heq⟩
              simp [hopen]
      rw [scan_cons, hstep, ih _ hbody.2, fenceAfter_cons]

/-- A body that reads as closed has a marked line. -/
theorem remove_of_closesEarly {fence : Fence} (remove : Nat → Bool) (start index : Nat)
    (hbody : closesEarly id fence lines) :
    ∃ k < lines.length,
      (scan index ⟨fence, some (start, id), remove⟩ lines).remove (index + k) = true := by
  induction lines generalizing index fence with
  | nil => exact hbody.elim
  | cons line lines ih =>
      by_cases hnow : isFence (trimmed line) = false ∧ fence = none ∧ trimmed line = closing id
      · -- closed here, and marked from here on
        obtain ⟨hfence, rfl, hclose⟩ := hnow
        refine ⟨0, Nat.succ_pos _, ?_⟩
        rw [scan_cons]
        refine remove_scan_of_remove ?_ _ _
        have hstep : scanLine index ⟨none, some (start, id), remove⟩ line = ⟨none, none,
            Function.update (Function.update remove start true) index true⟩ := by
          simp only [scanLine, hfence, Bool.false_eq_true, if_false, Option.isSome_none]
          rw [if_pos hclose]
        rw [hstep]
        exact Function.update_self _ _ _
      · have hlater := hbody.resolve_left hnow
        have hnot : ¬ closesEarly id fence [line] := fun h => h.elim hnow fun hnone => hnone
        obtain ⟨k, hk, hmark⟩ := ih (index + 1) hlater
        refine ⟨k + 1, by rw [List.length_cons]; omega, ?_⟩
        have hstep : scanLine index ⟨fence, some (start, id), remove⟩ line =
            ⟨fenceLine fence line, some (start, id), remove⟩ := by
          have hscan := scan_body remove start index hnot
          rwa [scan_cons, scan, fenceAfter_cons, fenceAfter_nil] at hscan
        have hindex : index + (k + 1) = index + 1 + k := by omega
        rw [scan_cons, hstep, hindex]
        exact hmark

/-- The opening line of a paste. -/
theorem scanLine_open (p : Paste) (index : Nat) (remove : Nat → Bool) :
    scanLine index ⟨none, none, remove⟩ p.openLine = ⟨none, some (index, p.id), remove⟩ := by
  unfold scanLine
  dsimp only
  rw [p.opens, isFence_opening, openingId_opening p.id_ok]
  rfl

/-- The closing line is seen outside of fences only. -/
theorem scanLine_close (p : Paste) (fence : Fence) (start index : Nat) (remove : Nat → Bool) :
    scanLine index ⟨fence, some (start, p.id), remove⟩ p.closeLine =
      if fence = none then
        ⟨none, none, Function.update (Function.update remove start true) index true⟩
      else ⟨fence, some (start, p.id), remove⟩ := by
  unfold scanLine
  dsimp only
  rw [p.closes, isFence_closing]
  cases fence with
  | none => simp
  | some f => simp

theorem scan_paste (p : Paste) (index : Nat) (remove : Nat → Bool)
    (hbody : ¬ closesEarly p.id none p.body) :
    scan index ⟨none, none, remove⟩ (Block.paste p).lines =
      scanLine (index + 1 + p.body.length)
        ⟨fenceAfter none p.body, some (index, p.id), remove⟩ p.closeLine := by
  rw [Block.lines, scan_cons, scanLine_open, scan_append, scan_body remove index _ hbody, scan_cons,
    scan]

theorem length_marks (b : Block) : b.marks.length = b.lines.length := by
  cases b <;> simp [Block.marks, Block.lines]

theorem length_flatMap_marks (blocks : List Block) :
    (blocks.flatMap Block.marks).length = (blocks.flatMap Block.lines).length := by
  induction blocks with
  | nil => rfl
  | cons b blocks ih =>
      rw [List.flatMap_cons, List.flatMap_cons, List.length_append, List.length_append, ih,
        length_marks]

theorem getD_marks_behind (b : Block) (blocks : List Block) (k : Nat) :
    ((b :: blocks).flatMap Block.marks).getD (b.lines.length + k) false =
      (blocks.flatMap Block.marks).getD k false := by
  rw [List.flatMap_cons, List.getD_append_right _ _ _ _ (by rw [length_marks]; omega), length_marks,
    Nat.add_sub_cancel_left]

theorem getD_marks_front (b : Block) (blocks : List Block) {k : Nat} (hk : k < b.lines.length) :
    ((b :: blocks).flatMap Block.marks).getD k false = b.marks.getD k false := by
  rw [List.flatMap_cons, List.getD_append _ _ _ _ (by rw [length_marks]; exact hk)]

theorem getD_plain (lines : List Line) (k : Nat) :
    (Block.plain lines).marks.getD k false = false := by
  rw [Block.marks, List.getD_eq_getElem?_getD, List.getElem?_map]
  cases lines[k]? <;> rfl

/-- Of a paste the first and the last line are marked. -/
theorem getD_paste (p : Paste) (k : Nat) : (Block.paste p).marks.getD k false =
    decide (k = 0 ∨ k = p.body.length + 1) := by
  cases k with
  | zero => simp [Block.marks]
  | succ k =>
      rw [Block.marks, List.getD_cons_succ]
      rcases Nat.lt_trichotomy k p.body.length with hlt | rfl | hgt
      · rw [List.getD_append _ _ _ _ (by simpa using hlt)]
        have hne : ¬ (k + 1 = 0 ∨ k + 1 = p.body.length + 1) := by omega
        rw [decide_eq_false hne, List.getD_eq_getElem?_getD, List.getElem?_map]
        cases p.body[k]? <;> rfl
      · rw [List.getD_append_right _ _ _ _ (by simp)]
        simp
      · rw [List.getD_eq_default _ _ (by simp; omega)]
        have hne : ¬ (k + 1 = 0 ∨ k + 1 = p.body.length + 1) := by omega
        rw [decide_eq_false hne]

/-- **One block.** From outside of fences and pastes a block that reads as such leads there again,
with its delimiter lines marked. -/
theorem scan_block {remove : Nat → Bool} (b : Block)
    (hsegment : ∀ lines, b = .plain lines → Segment lines)
    (hclosed : ∀ p, b = .paste p → p.Closed) (index : Nat)
    (hfresh : ∀ j, index ≤ j → remove j = false) :
    ∃ remove', scan index ⟨none, none, remove⟩ b.lines = ⟨none, none, remove'⟩ ∧
      ∀ j, remove' j = if j < index then remove j else b.marks.getD (j - index) false := by
  cases b with
  | plain lines =>
      obtain ⟨hlines, hfence⟩ := hsegment lines rfl
      refine ⟨remove, ?_, fun j => ?_⟩
      · rw [Block.lines, scan_segment (fun line hline => (hlines line hline).1), hfence]
      · rw [getD_plain]
        split
        · rfl
        · exact hfresh j (by omega)
  | paste p =>
      obtain ⟨hfence, hbody⟩ := hclosed p rfl
      refine ⟨Function.update (Function.update remove index true) (index + 1 + p.body.length) true,
        ?_, fun j => ?_⟩
      · rw [scan_paste p _ _ hbody, scanLine_close, if_pos hfence]
      · rw [getD_paste, Function.update_apply, Function.update_apply]
        split
        · -- the closing line
          rw [if_neg (by omega), decide_eq_true (by omega)]
        · split
          · -- the opening line
            rw [if_neg (by omega), decide_eq_true (by omega)]
          · split
            · rfl
            · rw [hfresh j (by omega), decide_eq_false (by omega)]

theorem getD_marks_of_le (b : Block) {k : Nat} (hk : b.lines.length ≤ k) :
    b.marks.getD k false = false :=
  List.getD_eq_default _ _ (by rw [length_marks]; exact hk)

/-- **The delimiter lines of a document of closed pastes are the ones that are marked.** -/
theorem remove_scan_of_closed (blocks : List Block)
    (hsegments : ∀ lines, .plain lines ∈ blocks → Segment lines)
    (hclosed : ∀ p, .paste p ∈ blocks → p.Closed) {remove : Nat → Bool} (index : Nat)
    (hfresh : ∀ j, index ≤ j → remove j = false) (j : Nat) (hj : index ≤ j) :
    (scan index ⟨none, none, remove⟩ (blocks.flatMap Block.lines)).remove j =
      (blocks.flatMap Block.marks).getD (j - index) false := by
  induction blocks generalizing index remove j with
  | nil => simpa [scan] using hfresh j hj
  | cons b blocks ih =>
      obtain ⟨remove', hscan, hmarks⟩ := scan_block b
        (fun lines h => hsegments lines (h ▸ List.mem_cons_self))
        (fun p h => hclosed p (h ▸ List.mem_cons_self)) index hfresh
      have hfresh' : ∀ j, index + b.lines.length ≤ j → remove' j = false := fun j hj => by
        rw [hmarks, if_neg (by omega), getD_marks_of_le b (by omega)]
      rw [List.flatMap_cons, scan_append, hscan]
      by_cases hfront : j - index < b.lines.length
      · -- behind the scan by now
        rw [remove_scan_behind (by omega) (fun id h => Option.some_ne_none _ h.symm)]
        dsimp only
        rw [hmarks, if_neg (by omega), getD_marks_front b blocks hfront]
      · obtain ⟨k, hk⟩ : ∃ k, j - index = b.lines.length + k := Nat.exists_eq_add_of_le (by omega)
        rw [ih (fun lines h => hsegments lines (List.mem_cons_of_mem _ h))
          (fun p h => hclosed p (List.mem_cons_of_mem _ h)) _ hfresh' j (by omega), hk,
          getD_marks_behind]
        congr 1
        omega

/-- **A document whose delimiter lines are marked has closed pastes only.** -/
theorem closed_of_remove_scan (blocks : List Block)
    (hsegments : ∀ lines, .plain lines ∈ blocks → Segment lines)
    (remove : Nat → Bool) (index : Nat) (hfresh : ∀ j, index ≤ j → remove j = false)
    (hmarks : ∀ k,
      (scan index ⟨none, none, remove⟩ (blocks.flatMap Block.lines)).remove (index + k) =
        (blocks.flatMap Block.marks).getD k false)
    (p : Paste) (hp : .paste p ∈ blocks) : p.Closed := by
  induction blocks generalizing index remove with
  | nil => exact absurd hp List.not_mem_nil
  | cons b blocks ih =>
      have hblock : ∀ q, b = .paste q → q.Closed := by
        rintro q rfl
        rw [List.flatMap_cons, scan_append] at hmarks
        have hbody : ¬ closesEarly q.id none q.body := by
          -- a line of the body would be marked
          intro hearly
          obtain ⟨k, hk, hmark⟩ := remove_of_closesEarly remove index (index + 1) hearly
          have hfalse := hmarks (k + 1)
          rw [getD_marks_front _ _ (by simp [Block.lines]; omega), getD_paste,
            decide_eq_false (by omega), Block.lines, scan_cons, scanLine_open, scan_append,
            Nat.add_comm k 1, ← Nat.add_assoc] at hfalse
          exact Bool.false_ne_true (hfalse.symm.trans
            (remove_scan_of_remove (remove_scan_of_remove hmark _ _) _ _))
        refine ⟨?_, hbody⟩
        -- a fence left open hides the closing line, and the scan does not come back to it
        by_contra hfence
        have htrue := hmarks (q.body.length + 1)
        rw [getD_marks_front _ _ (by simp [Block.lines]), getD_paste, decide_eq_true (.inr rfl),
          scan_paste q _ _ hbody, scanLine_close, if_neg hfence,
          remove_scan_behind (by simp [Block.lines]) (fun id h => ?_)] at htrue
        · exact Bool.false_ne_true ((hfresh _ (by omega)).symm.trans htrue)
        · have := (Prod.mk.inj (Option.some.inj h)).1
          omega
      obtain ⟨remove', hscan, hmarks'⟩ := scan_block b
        (fun lines h => hsegments lines (h ▸ List.mem_cons_self)) hblock index hfresh
      rcases List.mem_cons.mp hp with heq | hp
      · exact hblock p heq.symm
      · refine ih (fun lines h => hsegments lines (List.mem_cons_of_mem _ h)) remove'
          (index + b.lines.length) (fun j hj => ?_) (fun k => ?_) hp
        · rw [hmarks', if_neg (by omega), getD_marks_of_le b (by omega)]
        · have hk := hmarks (b.lines.length + k)
          rw [List.flatMap_cons, scan_append, hscan, getD_marks_behind, ← Nat.add_assoc] at hk
          exact hk

/-! ## What is kept -/

theorem kept_append (remove : Nat → Bool) (index : Nat) (lines rest : List Line) :
    kept remove index (lines ++ rest) =
      kept remove index lines ++ kept remove (index + lines.length) rest := by
  induction lines generalizing index with
  | nil => rfl
  | cons line lines ih =>
      have hindex : index + (lines.length + 1) = index + 1 + lines.length := by omega
      rw [List.cons_append, kept, kept, ih, List.length_cons, hindex]
      split <;> rfl

theorem kept_of_unmarked {remove : Nat → Bool} (index : Nat)
    (h : ∀ k < lines.length, remove (index + k) = false) : kept remove index lines = lines := by
  induction lines generalizing index with
  | nil => rfl
  | cons line lines ih =>
      rw [kept, if_neg (by simpa using h 0 (Nat.succ_pos _)), ih (index + 1) fun k hk => ?_]
      rw [Nat.add_assoc, Nat.add_comm 1]
      exact h (k + 1) (Nat.succ_lt_succ hk)

theorem kept_block {remove : Nat → Bool} (b : Block) (index : Nat)
    (h : ∀ k < b.lines.length, remove (index + k) = b.marks.getD k false) :
    kept remove index b.lines = b.content := by
  cases b with
  | plain lines => exact kept_of_unmarked index fun k hk => (h k hk).trans (getD_plain lines k)
  | paste p =>
      have hlen : (Block.paste p).lines.length = p.body.length + 2 := by simp [Block.lines]
      have hopen : remove index = true := by
        have := h 0 (by omega)
        rwa [getD_paste, decide_eq_true (.inl rfl)] at this
      have hclose : remove (index + 1 + p.body.length) = true := by
        have := h (p.body.length + 1) (by omega)
        rw [getD_paste, decide_eq_true (.inr rfl)] at this
        rwa [Nat.add_assoc, Nat.add_comm 1]
      have hbody : kept remove (index + 1) p.body = p.body := by
        refine kept_of_unmarked _ fun k hk => ?_
        have := h (k + 1) (by omega)
        rw [getD_paste, decide_eq_false (by omega)] at this
        rwa [Nat.add_assoc, Nat.add_comm 1]
      rw [Block.lines, kept, if_pos hopen, kept_append, hbody, kept, if_pos hclose, kept,
        List.append_nil]
      rfl

/-- With the delimiter lines marked, the segments and the bodies are kept. -/
theorem kept_blocks {remove : Nat → Bool} (blocks : List Block) (index : Nat)
    (h : ∀ k, remove (index + k) = (blocks.flatMap Block.marks).getD k false) :
    kept remove index (blocks.flatMap Block.lines) = blocks.flatMap Block.content := by
  induction blocks generalizing index with
  | nil => rfl
  | cons b blocks ih =>
      rw [List.flatMap_cons, List.flatMap_cons, kept_append,
        kept_block b index fun k hk => (h k).trans (getD_marks_front b blocks hk),
        ih (index + b.lines.length) fun k => ?_]
      rw [Nat.add_assoc, h, getD_marks_behind]

/-- The marks are looked through for one that is set. -/
theorem any_remove {remove : Nat → Bool} {marks : List Bool}
    (h : ∀ k, remove k = marks.getD k false) :
    (List.range marks.length).any remove = marks.any (·) := by
  rw [Bool.eq_iff_iff, List.any_eq_true, List.any_eq_true]
  constructor
  · rintro ⟨k, hk, hmark⟩
    rw [List.mem_range] at hk
    rw [h, List.getD_eq_getElem _ _ hk] at hmark
    exact ⟨_, List.getElem_mem hk, hmark⟩
  · rintro ⟨mark, hmem, hmark⟩
    obtain ⟨k, hk, rfl⟩ := List.getElem_of_mem hmem
    refine ⟨k, List.mem_range.mpr hk, ?_⟩
    rw [h, List.getD_eq_getElem _ _ hk]
    exact hmark

/-! ## The texts -/

/-- The pieces of a text are its lines again. -/
theorem splitInclusive_flatten (h : Pieces lines) : splitInclusive lines.flatten = lines := by
  induction lines with
  | nil => rfl
  | cons line lines ih =>
      obtain ⟨hinit, hlast⟩ := h
      cases lines with
      | nil =>
          rw [List.flatten_cons, List.flatten_nil, List.append_nil]
          rcases hlast line rfl with hline | ⟨hline, hne⟩
          · have := splitInclusive_cons_line hline []
            rwa [List.append_nil] at this
          · exact splitInclusive_last hline hne
      | cons next lines =>
          rw [List.flatten_cons, splitInclusive_cons_line (hinit line List.mem_cons_self), ih]
          exact ⟨fun l hl => hinit l (List.mem_cons_of_mem _ hl),
            fun l hl => hlast l (by simpa using hl)⟩

theorem Document.splitInclusive_text (doc : Document) :
    splitInclusive doc.text.toList = doc.blocks.flatMap Block.lines := by
  rw [Document.text, String.toList_ofList, splitInclusive_flatten doc.pieces]

/-- **A document is unwrapped exactly when each of its pastes is closed.** -/
theorem Document.unwrappedExactly_iff_closed (doc : Document) :
    doc.UnwrappedExactly ↔ ∀ p, .paste p ∈ doc.blocks → p.Closed := by
  constructor
  · rintro ⟨hlines, -⟩
    refine closed_of_remove_scan doc.blocks doc.segments _ 0 (fun _ _ => rfl) fun k => ?_
    rw [Nat.zero_add, ← doc.splitInclusive_text]
    exact hlines k
  · intro hclosed
    have hlines : ∀ k, (scan 0 .start (splitInclusive doc.text.toList)).remove k =
        (doc.blocks.flatMap Block.marks).getD k false := fun k => by
      rw [doc.splitInclusive_text]
      exact remove_scan_of_closed doc.blocks doc.segments hclosed 0 (fun _ _ => rfl) k
        (Nat.zero_le _)
    refine ⟨hlines, ?_⟩
    have hany := any_remove hlines
    rw [length_flatMap_marks, ← doc.splitInclusive_text] at hany
    have hkept : kept (scan 0 .start (splitInclusive doc.text.toList)).remove 0
        (splitInclusive doc.text.toList) = doc.blocks.flatMap Block.content := by
      conv_lhs => arg 3; rw [doc.splitInclusive_text]
      exact kept_blocks doc.blocks 0 fun k => by rw [Nat.zero_add]; exact hlines k
    rw [normalizeUserText, Document.unwrapped, hany, hkept]

/-- Without a pair nothing is marked: what stands open is the id of an earlier line. -/
theorem remove_scan_of_unpaired {all : List Line}
    (hun : ∀ (i j : Nat) (id : List Char), i < j →
      (∀ line, all[i]? = some line → openingId (trimmed line) ≠ some id) ∨
        ∀ line, all[j]? = some line → trimmed line ≠ closing id)
    (before : List Line) (hall : all = before ++ lines) (hremove : ∀ j, s.remove j = false)
    (hopening : ∀ start id, s.opening = some (start, id) → start < before.length ∧
      ∃ line, all[start]? = some line ∧ openingId (trimmed line) = some id) (j : Nat) :
    (scan before.length s lines).remove j = false := by
  induction lines generalizing s before with
  | nil => exact hremove j
  | cons line lines ih =>
      have hline : all[before.length]? = some line := by rw [hall]; simp
      have hstep : ∀ j, (scanLine before.length s line).remove j = false := by
        rcases scanLine_remove before.length s line with heq | ⟨start, id, hstart, hclose, -⟩
        · rw [heq]
          exact hremove
        · obtain ⟨hlt, first, hfirst, hid⟩ := hopening start id hstart
          rcases hun start before.length id hlt with hnot | hnot
          · exact absurd hid (hnot first hfirst)
          · exact absurd hclose (hnot line hline)
      have hlength : before.length + 1 = (before ++ [line]).length := by simp
      rw [scan_cons, hlength]
      refine ih (before ++ [line]) (by rw [hall, List.append_assoc]; rfl) hstep fun start id h => ?_
      rw [List.length_append]
      rcases scanLine_opening before.length s line with heq | heq | ⟨other, hid, heq⟩
      · obtain ⟨hlt, hfirst⟩ := hopening start id (heq ▸ h)
        exact ⟨Nat.lt_succ_of_lt hlt, hfirst⟩
      · rw [heq] at h
        cases h
      · rw [heq] at h
        cases h
        exact ⟨Nat.lt_succ_self _, line, hline, hid⟩

/-- **A text without a pair is left alone.** -/
theorem normalizeUserText_of_unpaired {text : String} (h : Unpaired text) :
    normalizeUserText text = text := by
  rw [normalizeUserText, if_neg]
  rw [List.any_eq_true]
  rintro ⟨j, -, hmark⟩
  exact Bool.false_ne_true ((remove_scan_of_unpaired h [] rfl (fun _ => rfl)
    (fun _ _ h => absurd h.symm (Option.some_ne_none _)) j).symm.trans hmark)

/-- **A text is unwrapped exactly when none of its pasted bodies leaves a fence open or reads as
closed before its end; without a pair it is left alone.** -/
theorem normalizeUserText_unwraps_iff (doc : Document) (text : String) :
    (doc.UnwrappedExactly ↔ ∀ p, .paste p ∈ doc.blocks → p.Closed) ∧
      (Unpaired text → normalizeUserText text = text) :=
  ⟨doc.unwrappedExactly_iff_closed, normalizeUserText_of_unpaired⟩

/-- A pasted body of one line that opens a fence. -/
def openFence : Paste where
  id := ['a']
  openLine := openingStart ++ ['a'] ++ openingStop ++ ['\n']
  body := ["```\n".toList]
  closeLine := closing ['a'] ++ ['\n']
  id_ok := by decide
  opens := by decide
  closes := by decide

def openFenceDocument : Document where
  blocks := [.paste openFence]
  pieces := by
    have hopen : IsLine openFence.openLine := ⟨openingStart ++ ['a'] ++ openingStop, by decide, rfl⟩
    have hfence : IsLine "```\n".toList := ⟨"```".toList, by decide, by decide⟩
    have hclose : IsLine openFence.closeLine := ⟨closing ['a'], by decide, rfl⟩
    exact ⟨List.forall_mem_cons.mpr ⟨hopen, List.forall_mem_singleton.mpr hfence⟩,
      fun line hline => .inl (Option.some.inj hline ▸ hclose)⟩
  segments := fun lines h => Block.noConfusion (List.mem_singleton.mp h)

/-- The fence that the body opens hides the closing delimiter, and both delimiters stay. -/
theorem delimiters_left_behind_open_fence :
    ¬ ∀ doc : Document,
        (∀ p, .paste p ∈ doc.blocks → ∀ line ∈ p.body, trimmed line ≠ closing p.id) →
          normalizeUserText doc.text = doc.unwrapped := by
  intro h
  have hbody : ∀ p, .paste p ∈ openFenceDocument.blocks →
      ∀ line ∈ p.body, trimmed line ≠ closing p.id := by
    intro p hp line hline
    have hp : Block.paste p ∈ [Block.paste openFence] := hp
    obtain rfl : p = openFence := Block.paste.inj (List.mem_singleton.mp hp)
    obtain rfl := List.mem_singleton.mp hline
    decide
  exact absurd (h openFenceDocument hbody) (by decide)

end Sulion.Ingest.PastedContent
