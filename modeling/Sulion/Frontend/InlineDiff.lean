import Mathlib.Data.List.Forall2
import Mathlib.Data.List.GetD
import Mathlib.Data.List.SplitBy
import Mathlib.Data.List.TakeWhile
import Mathlib.Tactic
import Sulion.Lib.CommonSubsequence

set_option autoImplicit false

/-! # Inline code diffs

The rows that the timeline shows for an edit: the lines of the two texts are aligned along a longest
common subsequence, runs of removed and added lines of one length are paired and aligned by their
words, and context away from the changes is collapsed.
-/

namespace Sulion.Frontend.InlineDiff

open Lib

/-! ## The model -/

/-- A JavaScript string: its UTF-16 code units. -/
abbrev Text := List UInt16

/-- `\s`. -/
def isSpace (u : UInt16) : Bool :=
  let n := u.toNat
  (9 ≤ n && n ≤ 13) || n == 32 || n == 0xA0 || n == 0x1680 || (0x2000 ≤ n && n ≤ 0x200A) ||
    n == 0x2028 || n == 0x2029 || n == 0x202F || n == 0x205F || n == 0x3000 || n == 0xFEFF

/-- `[A-Za-z0-9_]`. -/
def isWord (u : UInt16) : Bool :=
  let n := u.toNat
  (65 ≤ n && n ≤ 90) || (97 ≤ n && n ≤ 122) || (48 ≤ n && n ≤ 57) || n == 95

inductive PartKind
  | same
  | added
  | removed
  deriving DecidableEq

structure InlineDiffPart where
  kind : PartKind
  value : Text
  deriving DecidableEq

inductive InlineCodeDiffRow
  | context (oldLine newLine : Nat) (parts : List InlineDiffPart)
  | removed (oldLine : Nat) (parts : List InlineDiffPart)
  | added (newLine : Nat) (parts : List InlineDiffPart)
  | collapsed (count : Nat)
  deriving DecidableEq

inductive DiffState
  | changed
  | whitespaceOnly
  | unchanged
  deriving DecidableEq

structure InlineCodeDiffModel where
  state : DiffState
  rows : List InlineCodeDiffRow

inductive OpKind
  | context
  | removed
  | added
  deriving DecidableEq

structure SequenceOp where
  kind : OpKind
  text : Text
  deriving DecidableEq

/-- `replace(/\r\n/g, "\n")`. -/
def replaceCrLf : Text → Text
  | [] => []
  | [u] => [u]
  | u :: v :: rest =>
      if u = 13 ∧ v = 10 then 10 :: replaceCrLf rest else u :: replaceCrLf (v :: rest)

def toDisplayLines (text : Text) : List Text :=
  let normalized := replaceCrLf text
  if normalized = [] then []
  else
    let lines := normalized.splitOn 10
    if lines.getLast? = some [] then lines.dropLast else lines

def normalizeLineForMatch (line : Text) : Text := line.filter fun u => !isSpace u

/-- The matches of `TOKEN_RE`: runs of white space, runs of word characters, other units alone. -/
def tokenize (line : Text) : List Text :=
  if line = [] then [line]
  else line.splitBy fun u v => (isSpace u && isSpace v) || (isWord u && isWord v)

def pushPart (parts : List InlineDiffPart) (kind : PartKind) (value : Text) :
    List InlineDiffPart :=
  if value = [] then parts
  else
    match parts.getLast? with
    | some prev =>
        if prev.kind = kind then parts.dropLast ++ [{ prev with value := prev.value ++ value }]
        else parts ++ [⟨kind, value⟩]
    | none => parts ++ [⟨kind, value⟩]

/-- The loop that goes through the table from its first cell. -/
def backtrack (oldItems newItems oldNorm newNorm : List Text) (dp : List (List Nat))
    (oldIdx newIdx : Nat) : List SequenceOp :=
  if oldIdx < oldItems.length ∧ newIdx < newItems.length then
    if oldNorm[oldIdx]? = newNorm[newIdx]? then
      ⟨.context, oldItems.getD oldIdx []⟩ ::
        backtrack oldItems newItems oldNorm newNorm dp (oldIdx + 1) (newIdx + 1)
    else if cell dp (oldIdx + 1) newIdx ≥ cell dp oldIdx (newIdx + 1) then
      ⟨.removed, oldItems.getD oldIdx []⟩ ::
        backtrack oldItems newItems oldNorm newNorm dp (oldIdx + 1) newIdx
    else
      ⟨.added, newItems.getD newIdx []⟩ ::
        backtrack oldItems newItems oldNorm newNorm dp oldIdx (newIdx + 1)
  else
    (oldItems.drop oldIdx).map (⟨.removed, ·⟩) ++ (newItems.drop newIdx).map (⟨.added, ·⟩)
termination_by (oldItems.length - oldIdx) + (newItems.length - newIdx)

def diffSequence (oldItems newItems : List Text) (normalize : Text → Text) : List SequenceOp :=
  let oldNorm := oldItems.map normalize
  let newNorm := newItems.map normalize
  backtrack oldItems newItems oldNorm newNorm (commonTable oldNorm newNorm) 0 0

/-- What an operation adds to the parts of the two lines. -/
def pushOp (parts : List InlineDiffPart × List InlineDiffPart) (op : SequenceOp) :
    List InlineDiffPart × List InlineDiffPart :=
  match op.kind with
  | .context => (pushPart parts.1 .same op.text, pushPart parts.2 .same op.text)
  | .removed => (pushPart parts.1 .removed op.text, parts.2)
  | .added => (parts.1, pushPart parts.2 .added op.text)

def diffInlineParts (oldText newText : Text) : List InlineDiffPart × List InlineDiffPart :=
  (diffSequence (tokenize oldText) (tokenize newText) id).foldl pushOp ([], [])

/-- The rows of removed and added lines of one number, by pairs. -/
def pairRows : Nat → Nat → List Text → List Text → List InlineCodeDiffRow
  | oldLine, newLine, oldText :: removed, newText :: added =>
      let paired := diffInlineParts oldText newText
      .removed oldLine paired.1 :: .added newLine paired.2 ::
        pairRows (oldLine + 1) (newLine + 1) removed added
  | _, _, _, _ => []

def removedRows : Nat → List Text → List InlineCodeDiffRow
  | _, [] => []
  | oldLine, text :: removed =>
      .removed oldLine [⟨.removed, text⟩] :: removedRows (oldLine + 1) removed

def addedRows : Nat → List Text → List InlineCodeDiffRow
  | _, [] => []
  | newLine, text :: added => .added newLine [⟨.added, text⟩] :: addedRows (newLine + 1) added

def runRows (oldLine newLine : Nat) (removed added : List Text) : List InlineCodeDiffRow :=
  if removed.length = added.length ∧ removed.length > 0 then
    pairRows oldLine newLine removed added
  else removedRows oldLine removed ++ addedRows newLine added

def SequenceOp.isRemoved (op : SequenceOp) : Bool := op.kind = .removed

def SequenceOp.isAdded (op : SequenceOp) : Bool := op.kind = .added

theorem length_dropWhile_dropWhile_lt {current : SequenceOp} {rest : List SequenceOp}
    (h : current.kind ≠ .context) :
    (((current :: rest).dropWhile SequenceOp.isRemoved).dropWhile SequenceOp.isAdded).length <
      (current :: rest).length := by
  have hlength (ops : List SequenceOp) : (ops.dropWhile SequenceOp.isAdded).length ≤ ops.length :=
    (List.dropWhile_sublist _).length_le
  by_cases hremoved : current.isRemoved = true
  · rw [List.dropWhile_cons_of_pos hremoved, List.length_cons]
    have := hlength (rest.dropWhile SequenceOp.isRemoved)
    have := (List.dropWhile_sublist (l := rest) SequenceOp.isRemoved).length_le
    omega
  · have hadded : current.isAdded = true := by
      cases hkind : current.kind <;> simp_all [SequenceOp.isRemoved, SequenceOp.isAdded]
    rw [List.dropWhile_cons_of_neg hremoved, List.dropWhile_cons_of_pos hadded, List.length_cons]
    have := hlength rest
    omega

def buildRows (oldLine newLine : Nat) (ops : List SequenceOp) : List InlineCodeDiffRow :=
  match ops with
  | [] => []
  | current :: rest =>
      if current.kind = .context then
        .context oldLine newLine [⟨.same, current.text⟩] ::
          buildRows (oldLine + 1) (newLine + 1) rest
      else
        let removed := (current :: rest).takeWhile SequenceOp.isRemoved
        let behind := (current :: rest).dropWhile SequenceOp.isRemoved
        let added := behind.takeWhile SequenceOp.isAdded
        runRows oldLine newLine (removed.map SequenceOp.text) (added.map SequenceOp.text) ++
          buildRows (oldLine + removed.length) (newLine + added.length)
            (behind.dropWhile SequenceOp.isAdded)
termination_by ops.length
decreasing_by
  · exact Nat.lt_succ_self _
  · exact length_dropWhile_dropWhile_lt (by assumption)

def InlineCodeDiffRow.isContext : InlineCodeDiffRow → Bool
  | .context .. => true
  | _ => false

def InlineCodeDiffRow.isChanged : InlineCodeDiffRow → Bool
  | .removed .. => true
  | .added .. => true
  | _ => false

def isContextAt (rows : List InlineCodeDiffRow) (idx : Nat) : Bool :=
  (rows[idx]?).any InlineCodeDiffRow.isContext

def changedIndexes (rows : List InlineCodeDiffRow) : List Nat :=
  (List.range rows.length).filter fun idx => (rows[idx]?).any InlineCodeDiffRow.isChanged

/-- The indexes that stay in view. -/
def keep (rows : List InlineCodeDiffRow) (contextRadius : Nat) : List Nat :=
  (changedIndexes rows).flatMap fun idx =>
    let first := idx - contextRadius
    let last := min (rows.length - 1) (idx + contextRadius)
    (List.range' first (last + 1 - first)).filter (isContextAt rows) ++ [idx]

def flushHidden (hiddenCount : Nat) : List InlineCodeDiffRow :=
  if hiddenCount > 0 then [.collapsed hiddenCount] else []

def collapseFrom (keep : List Nat) : Nat → Nat → List InlineCodeDiffRow → List InlineCodeDiffRow
  | _, hiddenCount, [] => flushHidden hiddenCount
  | idx, hiddenCount, row :: rows =>
      if row.isContext && !keep.contains idx then collapseFrom keep (idx + 1) (hiddenCount + 1) rows
      else flushHidden hiddenCount ++ row :: collapseFrom keep (idx + 1) 0 rows

def collapseContextRows (rows : List InlineCodeDiffRow) (contextRadius : Nat) :
    List InlineCodeDiffRow :=
  if changedIndexes rows = [] then rows
  else collapseFrom (keep rows contextRadius) 0 0 rows

def contextRadius (compact : Bool) : Nat := if compact then 1 else 2

def buildInlineCodeDiff (oldText newText : Text) (compact : Bool) : InlineCodeDiffModel :=
  if oldText = newText then ⟨.unchanged, []⟩
  else
    let ops :=
      diffSequence (toDisplayLines oldText) (toDisplayLines newText) normalizeLineForMatch
    if !ops.any fun op => op.kind ≠ .context then ⟨.whitespaceOnly, []⟩
    else ⟨.changed, collapseContextRows (buildRows 1 1 ops) (contextRadius compact)⟩

/-! ## Alignments -/

def SequenceOp.isContext (op : SequenceOp) : Bool := op.kind = .context

/-- The operations lead from the old items to the new ones; a shared item is shown as the old text
has it. -/
inductive Aligned (normalize : Text → Text) : List Text → List Text → List SequenceOp → Prop
  | nil : Aligned normalize [] [] []
  | context {a b : Text} {old new : List Text} {ops : List SequenceOp}
      (hmatch : normalize a = normalize b) (h : Aligned normalize old new ops) :
      Aligned normalize (a :: old) (b :: new) (⟨.context, a⟩ :: ops)
  | removed {a : Text} {old new : List Text} {ops : List SequenceOp}
      (h : Aligned normalize old new ops) :
      Aligned normalize (a :: old) new (⟨.removed, a⟩ :: ops)
  | added {b : Text} {old new : List Text} {ops : List SequenceOp}
      (h : Aligned normalize old new ops) :
      Aligned normalize old (b :: new) (⟨.added, b⟩ :: ops)

variable {normalize : Text → Text} {old new : List Text} {ops : List SequenceOp}

theorem Aligned.of_removed (old : List Text) :
    Aligned normalize old [] (old.map (⟨.removed, ·⟩)) := by
  induction old with
  | nil => exact .nil
  | cons a old ih => exact .removed ih

theorem Aligned.of_added (new : List Text) :
    Aligned normalize [] new (new.map (⟨.added, ·⟩)) := by
  induction new with
  | nil => exact .nil
  | cons b new ih => exact .added ih

/-- An alignment with as many shared items as there can be. -/
structure Longest (normalize : Text → Text) (old new : List Text) (ops : List SequenceOp) :
    Prop where
  aligned : Aligned normalize old new ops
  count : LongestCommon (ops.countP SequenceOp.isContext) (old.map normalize) (new.map normalize)

theorem Longest.of_removed (old : List Text) :
    Longest normalize old [] (old.map (⟨.removed, ·⟩)) where
  aligned := .of_removed old
  count := by
    have hzero : (old.map fun text => (⟨.removed, text⟩ : SequenceOp)).countP
        SequenceOp.isContext = 0 := by
      simp [List.countP_eq_zero, SequenceOp.isContext]
    rw [hzero]
    exact .nil_right _

theorem Longest.of_added (new : List Text) :
    Longest normalize [] new (new.map (⟨.added, ·⟩)) where
  aligned := .of_added new
  count := by
    have hzero : (new.map fun text => (⟨.added, text⟩ : SequenceOp)).countP
        SequenceOp.isContext = 0 := by
      simp [List.countP_eq_zero, SequenceOp.isContext]
    rw [hzero]
    exact .nil_left _

/-- **The loop aligns what is left of the two lists**, along a longest common subsequence: the cell
that it prefers is how many items the rest of the alignment shares. -/
theorem backtrack_longest (old new : List Text) (i j : Nat) (hi : i ≤ old.length)
    (hj : j ≤ new.length) : Longest normalize (old.drop i) (new.drop j)
      (backtrack old new (old.map normalize) (new.map normalize)
        (commonTable (old.map normalize) (new.map normalize)) i j) := by
  have hcell (i j : Nat) (hi : i ≤ old.length) (hj : j ≤ new.length) : LongestCommon
      (cell (commonTable (old.map normalize) (new.map normalize)) i j)
      ((old.drop i).map normalize) ((new.drop j).map normalize) := by
    rw [List.map_drop, List.map_drop]
    exact cell_commonTable _ _ i j (by simpa using hi) (by simpa using hj)
  induction hmeasure : (old.length - i) + (new.length - j) using Nat.strong_induction_on
    generalizing i j with
  | _ measure ih =>
      rw [backtrack]
      split
      · rename_i hlt
        obtain ⟨hlti, hltj⟩ := hlt
        have hold : old.drop i = old[i] :: old.drop (i + 1) := List.drop_eq_getElem_cons hlti
        have hnew : new.drop j = new[j] :: new.drop (j + 1) := List.drop_eq_getElem_cons hltj
        have hgeti : old.getD i [] = old[i] := List.getD_eq_getElem _ _ hlti
        have hgetj : new.getD j [] = new[j] := List.getD_eq_getElem _ _ hltj
        have hmatch : (old.map normalize)[i]? = (new.map normalize)[j]? ↔
            normalize old[i] = normalize new[j] := by
          simp [hlti, hltj]
        split
        · rename_i heq
          have hrest := ih _ (by omega) (i + 1) (j + 1) hlti hltj rfl
          rw [hold, hnew, hgeti]
          refine ⟨.context (hmatch.mp heq) hrest.aligned, ?_⟩
          rw [List.map_cons, List.map_cons, hmatch.mp heq, List.countP_cons_of_pos rfl]
          exact hrest.count.cons_same _
        · rename_i hne
          have hne' : normalize old[i] ≠ normalize new[j] := fun h => hne (hmatch.mpr h)
          split
          · -- the old item is left out: the cell below is the larger one
            rename_i hle
            have hrest := ih _ (by omega) (i + 1) j hlti hj rfl
            have hsize := hrest.count.unique (hcell (i + 1) j hlti hj)
            have hleft := hrest.count
            have hright := hcell i (j + 1) hi hltj
            rw [hnew, List.map_cons] at hleft
            rw [hold, List.map_cons] at hright
            have hboth := LongestCommon.cons_ne hne' hleft hright
            rw [max_eq_left (hsize ▸ hle)] at hboth
            rw [hgeti]
            refine ⟨hold ▸ .removed hrest.aligned, ?_⟩
            rw [hold, hnew, List.map_cons, List.map_cons,
              List.countP_cons_of_neg Bool.false_ne_true]
            exact hboth
          · -- the new item is left out
            rename_i hlt
            have hrest := ih _ (by omega) i (j + 1) hi hltj rfl
            have hsize := hrest.count.unique (hcell i (j + 1) hi hltj)
            have hleft := hcell (i + 1) j hlti hj
            have hright := hrest.count
            rw [hnew, List.map_cons] at hleft
            rw [hold, List.map_cons] at hright
            have hboth := LongestCommon.cons_ne hne' hleft hright
            rw [max_eq_right (hsize ▸ (not_le.mp hlt).le)] at hboth
            rw [hgetj]
            refine ⟨hnew ▸ .added hrest.aligned, ?_⟩
            rw [hold, hnew, List.map_cons, List.map_cons,
              List.countP_cons_of_neg Bool.false_ne_true]
            exact hboth
      · rename_i hdone
        rcases Nat.lt_or_ge i old.length with hlti | hgei
        · obtain rfl : j = new.length := by omega
          rw [List.drop_length, List.map_nil, List.append_nil]
          exact .of_removed _
        · obtain rfl : i = old.length := by omega
          rw [List.drop_length, List.map_nil, List.nil_append]
          exact .of_added _

theorem diffSequence_longest (old new : List Text) :
    Longest normalize old new (diffSequence old new normalize) :=
  backtrack_longest old new 0 0 (Nat.zero_le _) (Nat.zero_le _)

/-! ## Parts -/

/-- The line that the parts of a row show. -/
def textOf (parts : List InlineDiffPart) : Text := (parts.map InlineDiffPart.value).flatten

theorem textOf_append (parts more : List InlineDiffPart) :
    textOf (parts ++ more) = textOf parts ++ textOf more := by
  rw [textOf, List.map_append, List.flatten_append]
  rfl

theorem textOf_singleton (part : InlineDiffPart) : textOf [part] = part.value := by
  simp [textOf]

theorem textOf_pushPart (parts : List InlineDiffPart) (kind : PartKind) (value : Text) :
    textOf (pushPart parts kind value) = textOf parts ++ value := by
  rw [pushPart]
  split
  · rename_i hempty
    rw [hempty, List.append_nil]
  · split
    · rename_i prev hlast
      have hparts : parts = parts.dropLast ++ [prev] :=
        (List.dropLast_append_getLast? prev hlast).symm
      split
      · rw [textOf_append, textOf_singleton, ← List.append_assoc]
        conv_rhs => rw [hparts, textOf_append, textOf_singleton]
      · rw [textOf_append, textOf_singleton]
    · rw [textOf_append, textOf_singleton]

/-- The operations of an alignment put the items together again, on both sides. -/
theorem textOf_foldl_pushOp (h : Aligned id old new ops)
    (parts : List InlineDiffPart × List InlineDiffPart) :
    textOf (ops.foldl pushOp parts).1 = textOf parts.1 ++ old.flatten ∧
      textOf (ops.foldl pushOp parts).2 = textOf parts.2 ++ new.flatten := by
  induction h generalizing parts with
  | nil => simp
  | @context a b _ _ _ hmatch _ ih =>
      obtain rfl : a = b := hmatch
      obtain ⟨hold, hnew⟩ := ih (pushOp parts ⟨.context, a⟩)
      rw [List.foldl_cons, hold, hnew, List.flatten_cons, List.flatten_cons, ← List.append_assoc,
        ← List.append_assoc]
      exact ⟨congrArg (· ++ _) (textOf_pushPart _ _ _), congrArg (· ++ _) (textOf_pushPart _ _ _)⟩
  | @removed a _ _ _ _ ih =>
      obtain ⟨hold, hnew⟩ := ih (pushOp parts ⟨.removed, a⟩)
      rw [List.foldl_cons, hold, hnew, List.flatten_cons, ← List.append_assoc]
      exact ⟨congrArg (· ++ _) (textOf_pushPart _ _ _), rfl⟩
  | @added b _ _ _ _ ih =>
      obtain ⟨hold, hnew⟩ := ih (pushOp parts ⟨.added, b⟩)
      rw [List.foldl_cons, hold, hnew, List.flatten_cons, ← List.append_assoc]
      exact ⟨rfl, congrArg (· ++ _) (textOf_pushPart _ _ _)⟩

theorem flatten_tokenize (line : Text) : (tokenize line).flatten = line := by
  rw [tokenize]
  split
  · exact List.append_nil line
  · exact List.flatten_splitBy _ line

theorem textOf_diffInlineParts (oldText newText : Text) :
    textOf (diffInlineParts oldText newText).1 = oldText ∧
      textOf (diffInlineParts oldText newText).2 = newText := by
  have h := textOf_foldl_pushOp
    (diffSequence_longest (tokenize oldText) (tokenize newText)).aligned ([], [])
  rw [flatten_tokenize, flatten_tokenize] at h
  exact h

/-! ## Rows -/

/-- The rows show the old lines from one number on, and the new lines from another; of a shared
line they show the old text. -/
inductive Shows : Nat → Nat → List Text → List Text → List InlineCodeDiffRow → Prop
  | nil (m n : Nat) : Shows m n [] [] []
  | context {m n : Nat} {old new : List Text} {rows : List InlineCodeDiffRow}
      (line : Text) (parts : List InlineDiffPart)
      (hmatch : normalizeLineForMatch (textOf parts) = normalizeLineForMatch line)
      (h : Shows (m + 1) (n + 1) old new rows) :
      Shows m n (textOf parts :: old) (line :: new) (.context m n parts :: rows)
  | removed {m n : Nat} {old new : List Text} {rows : List InlineCodeDiffRow}
      (parts : List InlineDiffPart) (h : Shows (m + 1) n old new rows) :
      Shows m n (textOf parts :: old) new (.removed m parts :: rows)
  | added {m n : Nat} {old new : List Text} {rows : List InlineCodeDiffRow}
      (parts : List InlineDiffPart) (h : Shows m (n + 1) old new rows) :
      Shows m n old (textOf parts :: new) (.added n parts :: rows)

variable {m n : Nat} {rows : List InlineCodeDiffRow}

theorem Shows.removedRows (removed : List Text) (h : Shows (m + removed.length) n old new rows) :
    Shows m n (removed ++ old) new (removedRows m removed ++ rows) := by
  induction removed generalizing m with
  | nil => exact h
  | cons text removed ih =>
      have hrest := ih (m := m + 1) (by rwa [Nat.add_assoc, Nat.add_comm 1])
      have hrow := Shows.removed [⟨.removed, text⟩] hrest
      rwa [textOf_singleton] at hrow

theorem Shows.addedRows (added : List Text) (h : Shows m (n + added.length) old new rows) :
    Shows m n old (added ++ new) (addedRows n added ++ rows) := by
  induction added generalizing n with
  | nil => exact h
  | cons text added ih =>
      have hrest := ih (n := n + 1) (by rwa [Nat.add_assoc, Nat.add_comm 1])
      have hrow := Shows.added [⟨.added, text⟩] hrest
      rwa [textOf_singleton] at hrow

theorem Shows.pairRows {removed added : List Text} (hlength : removed.length = added.length)
    (h : Shows (m + removed.length) (n + added.length) old new rows) :
    Shows m n (removed ++ old) (added ++ new) (pairRows m n removed added ++ rows) := by
  induction removed generalizing m n added with
  | nil =>
      obtain rfl := List.length_eq_zero_iff.mp hlength.symm
      exact h
  | cons oldText removed ih =>
      cases added with
      | nil => cases hlength
      | cons newText added =>
          have hrest := ih (m := m + 1) (n := n + 1) (Nat.succ.inj hlength)
            (by rwa [Nat.add_assoc, Nat.add_comm 1, Nat.add_assoc, Nat.add_comm 1])
          obtain ⟨hold, hnew⟩ := textOf_diffInlineParts oldText newText
          have hrows := Shows.removed (diffInlineParts oldText newText).1
            (Shows.added (diffInlineParts oldText newText).2 hrest)
          rwa [hold, hnew] at hrows

/-- **A run of removed and added lines**, paired or not. -/
theorem Shows.runRows {removed added : List Text}
    (h : Shows (m + removed.length) (n + added.length) old new rows) :
    Shows m n (removed ++ old) (added ++ new) (runRows m n removed added ++ rows) := by
  rw [InlineDiff.runRows]
  split
  · rename_i hpaired
    exact .pairRows hpaired.1 h
  · rw [List.append_assoc]
    exact .removedRows removed (.addedRows added h)

/-- An alignment begins with its removed items. -/
theorem Aligned.split_removed (h : Aligned normalize old new ops) :
    ∃ rest, old = (ops.takeWhile SequenceOp.isRemoved).map SequenceOp.text ++ rest ∧
      Aligned normalize rest new (ops.dropWhile SequenceOp.isRemoved) := by
  induction h with
  | nil => exact ⟨[], rfl, .nil⟩
  | context hmatch h _ => exact ⟨_, rfl, .context hmatch h⟩
  | added h _ => exact ⟨_, rfl, .added h⟩
  | @removed a _ _ _ _ ih =>
      obtain ⟨rest, rfl, hrest⟩ := ih
      exact ⟨rest, rfl, hrest⟩

theorem Aligned.split_added (h : Aligned normalize old new ops) :
    ∃ rest, new = (ops.takeWhile SequenceOp.isAdded).map SequenceOp.text ++ rest ∧
      Aligned normalize old rest (ops.dropWhile SequenceOp.isAdded) := by
  induction h with
  | nil => exact ⟨[], rfl, .nil⟩
  | context hmatch h _ => exact ⟨_, rfl, .context hmatch h⟩
  | removed h _ => exact ⟨_, rfl, .removed h⟩
  | @added b _ _ _ _ ih =>
      obtain ⟨rest, rfl, hrest⟩ := ih
      exact ⟨rest, rfl, hrest⟩

theorem Aligned.of_context {current : SequenceOp} (hkind : current.kind = .context)
    (h : Aligned normalize old new (current :: ops)) :
    ∃ b old' new', old = current.text :: old' ∧ new = b :: new' ∧
      normalize current.text = normalize b ∧ Aligned normalize old' new' ops := by
  cases h with
  | context hmatch h => exact ⟨_, _, _, rfl, rfl, hmatch, h⟩
  | removed h => cases hkind
  | added h => cases hkind

/-- **The rows of an alignment show both sides.** -/
theorem shows_buildRows (h : Aligned normalizeLineForMatch old new ops) (m n : Nat) :
    Shows m n old new (buildRows m n ops) := by
  induction m, n, ops using buildRows.induct generalizing old new with
  | case1 =>
      cases h
      rw [buildRows]
      exact .nil _ _
  | case2 m n current rest hkind ih =>
      obtain ⟨line, old, new, rfl, rfl, hmatch, hrest⟩ := h.of_context hkind
      rw [buildRows, if_pos hkind]
      have hrow := Shows.context line [⟨.same, current.text⟩] (by rwa [textOf_singleton]) (ih hrest)
      rwa [textOf_singleton] at hrow
  | case3 m n current rest hkind removed behind =>
      rename_i added ih
      obtain ⟨old, rfl, hbehind⟩ := h.split_removed
      obtain ⟨new, rfl, hrest⟩ := hbehind.split_added
      rw [buildRows, if_neg hkind]
      refine .runRows ?_
      rw [List.length_map, List.length_map]
      exact ih hrest

theorem countP_runRows (m n : Nat) (removed added : List Text) :
    (runRows m n removed added).countP InlineCodeDiffRow.isContext = 0 ∧
      (runRows m n removed added).countP InlineCodeDiffRow.isChanged =
        removed.length + added.length := by
  have hremoved (m : Nat) : (removedRows m removed).countP InlineCodeDiffRow.isContext = 0 ∧
      (removedRows m removed).countP InlineCodeDiffRow.isChanged = removed.length := by
    induction removed generalizing m with
    | nil => exact ⟨rfl, rfl⟩
    | cons text removed ih =>
        obtain ⟨hcontext, hchanged⟩ := ih (m + 1)
        rw [removedRows, List.countP_cons_of_neg Bool.false_ne_true, List.countP_cons_of_pos rfl,
          hcontext, hchanged]
        exact ⟨rfl, rfl⟩
  have hadded (n : Nat) : (addedRows n added).countP InlineCodeDiffRow.isContext = 0 ∧
      (addedRows n added).countP InlineCodeDiffRow.isChanged = added.length := by
    induction added generalizing n with
    | nil => exact ⟨rfl, rfl⟩
    | cons text added ih =>
        obtain ⟨hcontext, hchanged⟩ := ih (n + 1)
        rw [addedRows, List.countP_cons_of_neg Bool.false_ne_true, List.countP_cons_of_pos rfl,
          hcontext, hchanged]
        exact ⟨rfl, rfl⟩
  rw [runRows]
  split
  · rename_i hpaired
    obtain ⟨hlength, -⟩ := hpaired
    clear hremoved hadded
    induction removed generalizing m n added with
    | nil => simp [pairRows, ← hlength]
    | cons oldText removed ih =>
        cases added with
        | nil => cases hlength
        | cons newText added =>
            obtain ⟨hcontext, hchanged⟩ := ih (m + 1) (n + 1) added (Nat.succ.inj hlength)
            rw [pairRows, List.countP_cons_of_neg Bool.false_ne_true,
              List.countP_cons_of_neg Bool.false_ne_true, List.countP_cons_of_pos rfl,
              List.countP_cons_of_pos rfl, hcontext, hchanged, List.length_cons, List.length_cons]
            exact ⟨rfl, by omega⟩
  · rw [List.countP_append, List.countP_append, (hremoved m).1, (hremoved m).2, (hadded n).1,
      (hadded n).2]
    exact ⟨rfl, rfl⟩

/-- Every operation has its row: context, or a change. -/
theorem countP_buildRows (m n : Nat) (ops : List SequenceOp) :
    (buildRows m n ops).countP InlineCodeDiffRow.isContext = ops.countP SequenceOp.isContext ∧
      (buildRows m n ops).countP InlineCodeDiffRow.isChanged =
        ops.countP fun op => !op.isContext := by
  induction m, n, ops using buildRows.induct with
  | case1 =>
      rw [buildRows]
      exact ⟨rfl, rfl⟩
  | case2 m n current rest hkind ih =>
      have hcontext : current.isContext = true := decide_eq_true hkind
      rw [buildRows, if_pos hkind, List.countP_cons_of_pos rfl,
        List.countP_cons_of_pos hcontext, List.countP_cons_of_neg Bool.false_ne_true,
        List.countP_cons_of_neg (by simp [hcontext]), ih.1, ih.2]
      exact ⟨rfl, rfl⟩
  | case3 m n current rest hkind removed behind =>
      rename_i added ih
      obtain ⟨hcontext, hchanged⟩ := countP_runRows m n (removed.map SequenceOp.text)
        (added.map SequenceOp.text)
      have hrun (run : List SequenceOp) (h : ∀ op ∈ run, op.isContext = false) :
          run.countP SequenceOp.isContext = 0 ∧ (run.countP fun op => !op.isContext) = run.length :=
        ⟨List.countP_eq_zero.mpr fun op hop => by simp [h op hop],
          List.countP_eq_length.mpr fun op hop => by simp [h op hop]⟩
      have hremoved := hrun removed fun op hop => by
        have hkind : op.isRemoved = true := List.mem_takeWhile_imp hop
        simp_all [SequenceOp.isRemoved, SequenceOp.isContext]
      have hadded := hrun added fun op hop => by
        have hkind : op.isAdded = true := List.mem_takeWhile_imp hop
        simp_all [SequenceOp.isAdded, SequenceOp.isContext]
      have hsplit :
          current :: rest = removed ++ (added ++ behind.dropWhile SequenceOp.isAdded) := by
        rw [List.takeWhile_append_dropWhile, List.takeWhile_append_dropWhile]
      have hbuild : buildRows m n (current :: rest) =
          runRows m n (removed.map SequenceOp.text) (added.map SequenceOp.text) ++
            buildRows (m + removed.length) (n + added.length)
              (behind.dropWhile SequenceOp.isAdded) := by
        rw [buildRows, if_neg hkind]
      rw [hbuild, hsplit]
      simp only [List.countP_append, hcontext, hchanged, hremoved.1, hremoved.2, hadded.1, hadded.2,
        ih.1, ih.2, List.length_map]
      exact ⟨by omega, by omega⟩

/-! ## Both sides -/

def InlineCodeDiffRow.onOld : InlineCodeDiffRow → Bool
  | .context .. => true
  | .removed .. => true
  | _ => false

def InlineCodeDiffRow.onNew : InlineCodeDiffRow → Bool
  | .context .. => true
  | .added .. => true
  | _ => false

/-- The row shows an old line, with its number. -/
def ReadsOld : InlineCodeDiffRow → Text × Nat → Prop
  | .context oldLine _ parts, line => textOf parts = line.1 ∧ oldLine = line.2
  | .removed oldLine parts, line => textOf parts = line.1 ∧ oldLine = line.2
  | _, _ => False

/-- The row shows a new line, with its number; a shared line is shown as the old text has it. -/
def ReadsNew : InlineCodeDiffRow → Text × Nat → Prop
  | .context _ newLine parts, line =>
      normalizeLineForMatch (textOf parts) = normalizeLineForMatch line.1 ∧ newLine = line.2
  | .added newLine parts, line => textOf parts = line.1 ∧ newLine = line.2
  | _, _ => False

/-- The rows read as the old lines and as the new lines, numbered from 1, and share as many lines
as two texts of these lines can. -/
structure Reconstructs (old new : List Text) (rows : List InlineCodeDiffRow) : Prop where
  oldSide : List.Forall₂ ReadsOld (rows.filter InlineCodeDiffRow.onOld) (old.zipIdx 1)
  newSide : List.Forall₂ ReadsNew (rows.filter InlineCodeDiffRow.onNew) (new.zipIdx 1)
  context : LongestCommon (rows.countP InlineCodeDiffRow.isContext)
    (old.map normalizeLineForMatch) (new.map normalizeLineForMatch)

theorem Shows.oldSide (h : Shows m n old new rows) :
    List.Forall₂ ReadsOld (rows.filter InlineCodeDiffRow.onOld) (old.zipIdx m) := by
  induction h with
  | nil => exact .nil
  | context _ _ _ _ ih => exact .cons ⟨rfl, rfl⟩ ih
  | removed _ _ ih => exact .cons ⟨rfl, rfl⟩ ih
  | added _ _ ih => exact ih

theorem Shows.newSide (h : Shows m n old new rows) :
    List.Forall₂ ReadsNew (rows.filter InlineCodeDiffRow.onNew) (new.zipIdx n) := by
  induction h with
  | nil => exact .nil
  | context _ _ hmatch _ ih => exact .cons ⟨hmatch, rfl⟩ ih
  | removed _ _ ih => exact ih
  | added _ _ ih => exact .cons ⟨rfl, rfl⟩ ih

/-- **The rows of a longest alignment reconstruct both sides.** -/
theorem reconstructs_buildRows (h : Longest normalizeLineForMatch old new ops) :
    Reconstructs old new (buildRows 1 1 ops) where
  oldSide := (shows_buildRows h.aligned 1 1).oldSide
  newSide := (shows_buildRows h.aligned 1 1).newSide
  context := by
    rw [(countP_buildRows 1 1 ops).1]
    exact h.count

/-! ## Collapsing -/

/-- A context row with no changed row in its reach. -/
def Hidden (rows : List InlineCodeDiffRow) (radius k : Nat) : Prop :=
  isContextAt rows k = true ∧
    ∀ idx row, rows[idx]? = some row → row.isChanged = true → idx + radius < k ∨ k + radius < idx

/-- The rows that are left show each row from some index on that is not hidden, and for each run of
hidden ones one gap with their number. -/
inductive Collapses (hidden : Nat → Prop) :
    Nat → List InlineCodeDiffRow → List InlineCodeDiffRow → Prop
  | nil (idx : Nat) : Collapses hidden idx [] []
  | shown {idx : Nat} {row : InlineCodeDiffRow} {rows left : List InlineCodeDiffRow}
      (hshown : ¬ hidden idx) (h : Collapses hidden (idx + 1) rows left) :
      Collapses hidden idx (row :: rows) (row :: left)
  | gap {idx : Nat} {run rows left : List InlineCodeDiffRow} (hrun : run ≠ [])
      (hcontext : ∀ row ∈ run, row.isContext = true)
      (hhidden : ∀ k < run.length, hidden (idx + k))
      (hend : rows ≠ [] → ¬ hidden (idx + run.length))
      (h : Collapses hidden (idx + run.length) rows left) :
      Collapses hidden idx (run ++ rows) (.collapsed run.length :: left)

theorem mem_changedIndexes {idx : Nat} : idx ∈ changedIndexes rows ↔
    ∃ row, rows[idx]? = some row ∧ row.isChanged = true := by
  rw [changedIndexes, List.mem_filter, List.mem_range, Option.any_eq_true]
  constructor
  · rintro ⟨-, row, hrow, hchanged⟩
    exact ⟨row, hrow, hchanged⟩
  · rintro ⟨row, hrow, hchanged⟩
    exact ⟨(List.getElem?_eq_some_iff.mp hrow).1, row, hrow, hchanged⟩

/-- A context row is kept when a changed row is in its reach. -/
theorem mem_keep {radius k : Nat} (hcontext : isContextAt rows k = true) :
    k ∈ keep rows radius ↔ ¬ Hidden rows radius k := by
  have hk : k < rows.length := by
    rw [isContextAt, Option.any_eq_true] at hcontext
    obtain ⟨row, hrow, -⟩ := hcontext
    exact (List.getElem?_eq_some_iff.mp hrow).1
  rw [keep, List.mem_flatMap]
  constructor
  · rintro ⟨idx, hidx, hmem⟩ ⟨-, hfar⟩
    obtain ⟨row, hrow, hchanged⟩ := mem_changedIndexes.mp hidx
    have := hfar idx row hrow hchanged
    rcases List.mem_append.mp hmem with hmem | hmem
    · have hrange := (List.mem_filter.mp hmem).1
      rw [List.mem_range'_1] at hrange
      omega
    · rw [List.mem_singleton] at hmem
      omega
  · intro hnot
    by_contra hnone
    refine hnot ⟨hcontext, fun idx row hrow hchanged => ?_⟩
    by_contra hnear
    refine hnone ⟨idx, mem_changedIndexes.mpr ⟨row, hrow, hchanged⟩, ?_⟩
    refine List.mem_append_left _ (List.mem_filter.mpr ⟨?_, hcontext⟩)
    rw [List.mem_range'_1]
    omega

variable {hidden : Nat → Prop} {idx start : Nat} {left : List InlineCodeDiffRow}

/-- What is put out for a run of hidden rows, before rows that do not continue it. -/
theorem Collapses.flush {run : List InlineCodeDiffRow} (hidx : start + run.length = idx)
    (hcontext : ∀ row ∈ run, row.isContext = true)
    (hhidden : ∀ k < run.length, hidden (start + k)) (hend : rows ≠ [] → ¬ hidden idx)
    (h : Collapses hidden idx rows left) :
    Collapses hidden start (run ++ rows) (flushHidden run.length ++ left) := by
  subst hidx
  rw [flushHidden]
  split
  · rename_i hpos
    exact .gap (List.length_pos_iff.mp hpos) hcontext hhidden hend h
  · obtain rfl : run = [] := List.length_eq_zero_iff.mp (by omega)
    exact h

/-- **The pass over the rows**, with the hidden rows that it has not yet put out. -/
theorem collapses_collapseFrom {kept : List Nat}
    (hkept : ∀ k row, rows[k]? = some row →
      ((row.isContext && !kept.contains (idx + k)) = true ↔ hidden (idx + k)))
    (run : List InlineCodeDiffRow) (hidx : start + run.length = idx)
    (hcontext : ∀ row ∈ run, row.isContext = true)
    (hhidden : ∀ k < run.length, hidden (start + k)) :
    Collapses hidden start (run ++ rows) (collapseFrom kept idx run.length rows) := by
  induction rows generalizing idx start run with
  | nil =>
      have hdone := Collapses.flush hidx hcontext hhidden (fun h => absurd rfl h) (.nil _)
      rwa [List.append_nil (flushHidden _)] at hdone
  | cons row rows ih =>
      have hrow := hkept 0 row rfl
      have hrest : ∀ k next, rows[k]? = some next →
          ((next.isContext && !kept.contains (idx + 1 + k)) = true ↔ hidden (idx + 1 + k)) := by
        intro k next hnext
        rw [Nat.add_assoc, Nat.add_comm 1]
        exact hkept (k + 1) next hnext
      rw [Nat.add_zero] at hrow
      rw [collapseFrom]
      split
      · -- one more hidden row
        rename_i hhide
        have hcontext' : ∀ r ∈ run ++ [row], r.isContext = true := by
          intro r hr
          rcases List.mem_append.mp hr with hr | hr
          · exact hcontext r hr
          · rw [List.mem_singleton.mp hr]
            exact (Bool.and_eq_true _ _ ▸ hhide).1
        have hhidden' : ∀ k < (run ++ [row]).length, hidden (start + k) := by
          intro k hk
          rw [List.length_append, List.length_singleton] at hk
          rcases Nat.lt_succ_iff_lt_or_eq.mp hk with hk | rfl
          · exact hhidden k hk
          · rw [hidx]
            exact hrow.mp hhide
        have hstep := ih hrest (run ++ [row]) (by simp; omega) hcontext' hhidden'
        rwa [List.append_assoc, List.length_append] at hstep
      · rename_i hshow
        have hstep := ih hrest [] (Nat.add_zero _) (List.forall_mem_nil _)
          fun k hk => absurd hk (Nat.not_lt_zero k)
        exact .flush hidx hcontext hhidden (fun _ h => hshow (hrow.mpr h))
          (.shown (fun h => hshow (hrow.mpr h)) hstep)

/-- **Collapsing hides the context rows out of reach of the changes, and nothing else.** -/
theorem collapses_collapseContextRows (hchanged : changedIndexes rows ≠ []) (radius : Nat) :
    Collapses (Hidden rows radius) 0 rows (collapseContextRows rows radius) := by
  rw [collapseContextRows, if_neg hchanged]
  refine collapses_collapseFrom (fun k row hrow => ?_) [] rfl (List.forall_mem_nil _)
    fun k hk => absurd hk (Nat.not_lt_zero k)
  rw [Nat.zero_add, Bool.and_eq_true]
  have hat : isContextAt rows k = row.isContext := by rw [isContextAt, hrow, Option.any_some]
  constructor
  · rintro ⟨hcontext, hnot⟩
    by_contra hhidden
    have := (mem_keep (hat.trans hcontext)).mpr hhidden
    simp [this] at hnot
  · intro hhidden
    refine ⟨hat.symm.trans hhidden.1, ?_⟩
    simpa using fun hmem => (mem_keep hhidden.1).mp hmem hhidden

/-- An operation that is not context has a changed row. -/
theorem changedIndexes_buildRows (h : ∃ op ∈ ops, op.isContext = false) :
    changedIndexes (buildRows 1 1 ops) ≠ [] := by
  obtain ⟨op, hop, hkind⟩ := h
  have hpos : 0 < (buildRows 1 1 ops).countP InlineCodeDiffRow.isChanged := by
    rw [(countP_buildRows 1 1 ops).2, List.countP_pos_iff]
    exact ⟨op, hop, by simp [hkind]⟩
  obtain ⟨row, hrow, hchanged⟩ := List.countP_pos_iff.mp hpos
  obtain ⟨idx, hidx⟩ := List.getElem?_of_mem hrow
  exact List.ne_nil_of_mem (mem_changedIndexes.mpr ⟨row, hidx, hchanged⟩)

/-- The rows that are collapsed. -/
def rowsBefore (oldText newText : Text) : List InlineCodeDiffRow :=
  buildRows 1 1
    (diffSequence (toDisplayLines oldText) (toDisplayLines newText) normalizeLineForMatch)

/-- **An inline diff that shows a change reconstructs both sides**: before collapsing its rows read
as the old lines and as the new lines, and the gaps stand for the hidden context rows. Without a
change beyond white space there are no rows. -/
theorem buildInlineCodeDiff_reconstructs (oldText newText : Text) (compact : Bool) :
    Reconstructs (toDisplayLines oldText) (toDisplayLines newText) (rowsBefore oldText newText) ∧
      ((buildInlineCodeDiff oldText newText compact).state = .changed →
        Collapses (Hidden (rowsBefore oldText newText) (contextRadius compact)) 0
          (rowsBefore oldText newText) (buildInlineCodeDiff oldText newText compact).rows) ∧
      ((buildInlineCodeDiff oldText newText compact).state ≠ .changed →
        (buildInlineCodeDiff oldText newText compact).rows = []) := by
  refine ⟨reconstructs_buildRows (diffSequence_longest _ _), ?_⟩
  rw [buildInlineCodeDiff]
  split
  · exact ⟨nofun, fun _ => rfl⟩
  · dsimp only
    split
    · exact ⟨nofun, fun _ => rfl⟩
    · rename_i hmaterial
      refine ⟨fun _ => collapses_collapseContextRows ?_ _, fun h => absurd rfl h⟩
      exact changedIndexes_buildRows (by simpa [SequenceOp.isContext] using hmaterial)

/-- Two equal texts have no rows, and so none that read as their one line. -/
theorem equal_texts_without_rows : ¬ ∀ (oldText newText : Text) (compact : Bool), ∃ rows,
    Reconstructs (toDisplayLines oldText) (toDisplayLines newText) rows ∧
      Collapses (Hidden rows (contextRadius compact)) 0 rows
        (buildInlineCodeDiff oldText newText compact).rows := by
  intro h
  obtain ⟨rows, hsides, hcollapses⟩ := h [97] [97] false
  have hlines : toDisplayLines [97] = [[97]] := by decide
  obtain rfl : rows = [] := by
    have hnone : (buildInlineCodeDiff [97] [97] false).rows = [] := rfl
    rw [hnone] at hcollapses
    cases hcollapses
    rfl
  have hold := hsides.oldSide
  rw [hlines] at hold
  cases hold

end Sulion.Frontend.InlineDiff
