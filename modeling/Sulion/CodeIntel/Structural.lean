import Mathlib.Tactic

set_option autoImplicit false

/-! # Structural search and patch

`search_files` and `patch_files` go through the files one after the other, with a limit on the
matches of all of them. The search looks for one more match than the limit before it says that it
is truncated. The patch says so as soon as the limit is used up and another file follows, whether or
not that file has a match.

What a pattern matches, and the edits that replace its matches, are the matter of `ast-grep`; the
text of a diff is that of `similar`. Both are parameters.
-/

namespace Sulion.CodeIntel

abbrev Bytes := List UInt8

structure StructuralFile where
  absolutePath : String
  relativePath : String
  deriving DecidableEq

/-- `ast_grep_core::source::Edit`. -/
structure Edit where
  position : Nat
  deletedLength : Nat
  insertedText : Bytes
  deriving DecidableEq

/-- The libraries, for one language: patterns, documents, and the matches in a document from its
start to its end. -/
structure AstGrep (π δ μ : Type) where
  /-- `Pattern::try_new`. -/
  pattern : String → Except String π
  /-- `StrDoc::try_new`. -/
  doc : Bytes → Except String δ
  findAll : δ → π → List μ
  /-- The byte that a match starts with. -/
  start : μ → Nat
  replaceAll : δ → π → String → List Edit
  /-- `TextDiff::from_lines(old, new).unified_diff()` under a header of two paths. -/
  unified : String → String → Bytes → Bytes → Bytes

structure StructuralSearchOutput (ρ : Type) where
  results : List ρ := []
  truncated : Bool := false
  warnings : List String := []

structure StructuralPatchFileSummary where
  path : String
  numMatches : Nat
  deriving DecidableEq

structure StructuralPatchOutput where
  numMatches : Nat := 0
  files : List StructuralPatchFileSummary := []
  diff : Bytes := []
  truncated : Bool := false
  warnings : List String := []
  deriving DecidableEq

/-! ## A budget over groups -/

section

variable {α β : Type}

/-- The groups, as far as a budget over all their members goes. -/
def cut : Nat → List (α × List β) → List (α × List β)
  | _, [] => []
  | n, (a, members) :: groups => (a, members.take n) :: cut (n - members.length) groups

def groupMembers (groups : List (α × List β)) : List (α × β) :=
  groups.flatMap fun group => group.2.map (group.1, ·)

theorem groupMembers_cons (a : α) (members : List β) (groups : List (α × List β)) :
    groupMembers ((a, members) :: groups) = members.map (a, ·) ++ groupMembers groups := rfl

/-- **The members within the budget are the first ones.** -/
theorem groupMembers_cut (n : Nat) (groups : List (α × List β)) :
    groupMembers (cut n groups) = (groupMembers groups).take n := by
  induction groups generalizing n with
  | nil => simp [cut, groupMembers]
  | cons group groups ih =>
      obtain ⟨a, members⟩ := group
      rw [cut, groupMembers_cons, groupMembers_cons, ih, List.take_append, List.map_take,
        List.length_map]

/-- Groups without a member, or a budget of nothing: what is left has no members. -/
theorem snd_of_mem_cut {n : Nat} {groups : List (α × List β)} {group : α × List β}
    (h : n = 0 ∨ ∀ g ∈ groups, g.2 = []) (hgroup : group ∈ cut n groups) : group.2 = [] := by
  induction groups generalizing n with
  | nil => exact absurd hgroup List.not_mem_nil
  | cons first groups ih =>
      obtain ⟨a, members⟩ := first
      rcases List.mem_cons.mp hgroup with rfl | hgroup
      · rcases h with rfl | h
        · rfl
        · have hnone : members = [] := h _ List.mem_cons_self
          rw [hnone, List.take_nil]
      · refine ih ?_ hgroup
        rcases h with rfl | h
        · exact .inl (Nat.zero_sub _)
        · exact .inr fun g hg => h g (List.mem_cons_of_mem _ hg)

end

section

variable {π δ μ ρ : Type} (lib : AstGrep π δ μ) (matchResult : String → Bytes → μ → ρ)
  (read : String → Except String Bytes) (pattern rewrite : String) (limit : Nat)

/-! ## The two loops -/

/-- The matches of one file. -/
def searchMatches (path : String) (source : Bytes) :
    StructuralSearchOutput ρ → List μ → StructuralSearchOutput ρ
  | output, [] => output
  | output, matched :: rest =>
      if output.results.length ≥ limit then { output with truncated := true }
      else
        searchMatches path source
          { output with results := output.results ++ [matchResult path source matched] } rest

def searchFrom (output : StructuralSearchOutput ρ) :
    List StructuralFile → StructuralSearchOutput ρ
  | [] => output
  | file :: files =>
      if output.results.length > limit then output
      else
        match read file.absolutePath with
        | .error err =>
            searchFrom
              { output with warnings := output.warnings ++ [file.relativePath ++ ": " ++ err] }
              files
        | .ok source =>
            match lib.pattern pattern with
            | .error err =>
                { output with
                  warnings := output.warnings ++ ["invalid ast-grep pattern: " ++ err] }
            | .ok pat =>
                match lib.doc source with
                | .error err =>
                    searchFrom
                      { output with
                        warnings :=
                          output.warnings ++ [file.relativePath ++ ": parse failed: " ++ err] }
                      files
                | .ok doc =>
                    searchFrom
                      (searchMatches matchResult limit file.relativePath source output
                        (lib.findAll doc pat))
                      files

def searchFiles (files : List StructuralFile) : StructuralSearchOutput ρ :=
  searchFrom lib matchResult read pattern limit {} files

/-- The last edit first, so that the positions of the others stay good. -/
def applyEdits (source : Bytes) (edits : List Edit) : Bytes :=
  edits.reverse.foldl
    (fun patched edit =>
      patched.take edit.position ++ edit.insertedText ++
        patched.drop (edit.position + edit.deletedLength))
    source

def unifiedDiff (path : String) (old new : Bytes) : Bytes :=
  let diff := lib.unified ("a/" ++ path) ("b/" ++ path) old new
  if diff.getLast? = some 10 then diff else diff ++ [10]

/-- What the edits of a file add to the diff. -/
def diffOf (path : String) (source : Bytes) (edits : List Edit) : Bytes :=
  let patched := applyEdits source edits
  if patched ≠ source then unifiedDiff lib path source patched else []

def patchFrom (remaining : Nat) (output : StructuralPatchOutput) :
    List StructuralFile → StructuralPatchOutput
  | [] => output
  | file :: files =>
      if remaining = 0 then { output with truncated := true }
      else
        match read file.absolutePath with
        | .error err =>
            patchFrom remaining
              { output with warnings := output.warnings ++ [file.relativePath ++ ": " ++ err] }
              files
        | .ok source =>
            match lib.pattern pattern with
            | .error err =>
                { output with
                  warnings := output.warnings ++ ["invalid ast-grep pattern: " ++ err] }
            | .ok pat =>
                match lib.doc source with
                | .error err =>
                    patchFrom remaining
                      { output with
                        warnings :=
                          output.warnings ++ [file.relativePath ++ ": parse failed: " ++ err] }
                      files
                | .ok doc =>
                    let found := lib.replaceAll doc pat rewrite
                    let edits := found.take remaining
                    let output :=
                      if found.length > remaining then { output with truncated := true }
                      else output
                    if edits = [] then patchFrom remaining output files
                    else
                      patchFrom (remaining - edits.length)
                        { output with
                          numMatches := output.numMatches + edits.length
                          files := output.files ++ [⟨file.relativePath, edits.length⟩]
                          diff := output.diff ++ diffOf lib file.relativePath source edits }
                        files

def patchFiles (files : List StructuralFile) : StructuralPatchOutput :=
  patchFrom lib read pattern rewrite limit {} files

/-! ## What there is to report and to rewrite -/

/-- The text and the document of a file that can be read and parsed, with the pattern. -/
def opened (file : StructuralFile) : Option (Bytes × δ × π) :=
  match read file.absolutePath, lib.pattern pattern with
  | .ok source, .ok pat =>
      match lib.doc source with
      | .ok doc => some (source, doc, pat)
      | .error _ => none
  | _, _ => none

def matchesIn (file : StructuralFile) : List μ :=
  match opened lib read pattern file with
  | some (_, doc, pat) => lib.findAll doc pat
  | none => []

def editsIn (file : StructuralFile) : List Edit :=
  match opened lib read pattern file with
  | some (_, doc, pat) => lib.replaceAll doc pat rewrite
  | none => []

def sourceOf (file : StructuralFile) : Bytes := (read file.absolutePath).toOption.getD []

/-- The matches in the readable, parseable files, as they are reported. -/
def allResults (files : List StructuralFile) : List ρ :=
  files.flatMap fun file =>
    (matchesIn lib read pattern file).map (matchResult file.relativePath (sourceOf read file))

/-- Where the matches are. -/
def allMatches (files : List StructuralFile) : List (StructuralFile × Nat) :=
  files.flatMap fun file => (matchesIn lib read pattern file).map fun m => (file, lib.start m)

/-- The edits of each file. -/
def fileEdits (files : List StructuralFile) : List (StructuralFile × List Edit) :=
  files.map fun file => (file, editsIn lib read pattern rewrite file)

/-- The edits of all files, one after the other. -/
def allEdits (files : List StructuralFile) : List (StructuralFile × Edit) :=
  groupMembers (fileEdits lib read pattern rewrite files)

end

/-! ## What the loops compute -/

section

variable {π δ μ ρ : Type} {lib : AstGrep π δ μ} {matchResult : String → Bytes → μ → ρ}
  {read : String → Except String Bytes} {pattern rewrite : String} {limit : Nat}
  {file : StructuralFile} {files : List StructuralFile}

/-- The matches that are still allowed are added, and one more sets the flag. -/
theorem searchMatches_eq (path : String) (source : Bytes) (matched : List μ)
    {output : StructuralSearchOutput ρ} (h : output.results.length ≤ limit) :
    searchMatches matchResult limit path source output matched =
      { output with
        results := output.results ++
          (matched.map (matchResult path source)).take (limit - output.results.length)
        truncated := output.truncated || decide (limit < output.results.length + matched.length) }
    := by
  induction matched generalizing output with
  | nil =>
      have hnot : ¬ limit < output.results.length := by omega
      simp [searchMatches, hnot]
  | cons m matched ih =>
      rw [searchMatches]
      split
      · -- the limit is used up, and here is one more
        have hlimit : limit - output.results.length = 0 := by omega
        have hmore : limit < output.results.length + (m :: matched).length := by
          rw [List.length_cons]
          omega
        rw [hlimit, List.take_zero, List.append_nil, decide_eq_true hmore, Bool.or_true]
      · have hroom : limit - output.results.length = limit - output.results.length - 1 + 1 := by
          omega
        have hcount : output.results.length + (m :: matched).length =
            (output.results ++ [matchResult path source m]).length + matched.length := by
          rw [List.length_append, List.length_singleton, List.length_cons]
          omega
        rw [ih (by rw [List.length_append, List.length_singleton]; omega), List.map_cons, hroom,
          List.take_succ_cons, hcount, List.length_append, List.length_singleton, Nat.sub_sub,
          List.append_assoc, List.singleton_append]

theorem opened_eq_some_iff {source : Bytes} {doc : δ} {pat : π} :
    opened lib read pattern file = some (source, doc, pat) ↔
      read file.absolutePath = .ok source ∧ lib.pattern pattern = .ok pat ∧
        lib.doc source = .ok doc := by
  cases hread : read file.absolutePath with
  | error err => simp [opened, hread]
  | ok text =>
      cases hpat : lib.pattern pattern with
      | error err => simp [opened, hread, hpat]
      | ok parsed =>
          cases hdoc : lib.doc text with
          | error err =>
              simp only [opened, hread, hpat, hdoc, Except.ok.injEq, reduceCtorEq, false_iff]
              rintro ⟨rfl, -, hok⟩
              rw [hdoc] at hok
              cases hok
          | ok tree =>
              simp only [opened, hread, hpat, hdoc, Except.ok.injEq, Option.some.injEq,
                Prod.mk.injEq]
              constructor
              · rintro ⟨rfl, rfl, rfl⟩
                exact ⟨rfl, rfl, hdoc⟩
              · rintro ⟨rfl, rfl, hok⟩
                rw [hdoc] at hok
                exact ⟨rfl, Except.ok.inj hok, rfl⟩

theorem sourceOf_of_opened {source : Bytes} {doc : δ} {pat : π}
    (h : opened lib read pattern file = some (source, doc, pat)) :
    sourceOf read file = source := by
  rw [sourceOf, (opened_eq_some_iff.mp h).1]
  rfl

theorem matchesIn_of_opened {source : Bytes} {doc : δ} {pat : π}
    (h : opened lib read pattern file = some (source, doc, pat)) :
    matchesIn lib read pattern file = lib.findAll doc pat := by
  rw [matchesIn, h]

theorem matchesIn_of_closed (h : opened lib read pattern file = none) :
    matchesIn lib read pattern file = [] := by
  rw [matchesIn, h]

theorem editsIn_of_opened {source : Bytes} {doc : δ} {pat : π}
    (h : opened lib read pattern file = some (source, doc, pat)) :
    editsIn lib read pattern rewrite file = lib.replaceAll doc pat rewrite := by
  rw [editsIn, h]

theorem editsIn_of_closed (h : opened lib read pattern file = none) :
    editsIn lib read pattern rewrite file = [] := by
  rw [editsIn, h]

/-- With a pattern that cannot be read no file is opened. -/
theorem opened_of_pattern {err : String} (h : lib.pattern pattern = .error err) :
    opened lib read pattern file = none := by
  rw [opened, h]
  cases read file.absolutePath <;> rfl

/-! ### The search -/

section

variable {output : StructuralSearchOutput ρ}

theorem searchFrom_opened {source : Bytes} {doc : δ} {pat : π}
    (h : opened lib read pattern file = some (source, doc, pat))
    (hroom : output.results.length ≤ limit) :
    searchFrom lib matchResult read pattern limit output (file :: files) =
      searchFrom lib matchResult read pattern limit
        (searchMatches matchResult limit file.relativePath source output (lib.findAll doc pat))
        files := by
  obtain ⟨hread, hpat, hdoc⟩ := opened_eq_some_iff.mp h
  rw [searchFrom, if_neg (by omega)]
  simp only [hread, hpat, hdoc]

/-- A file that cannot be opened leaves a warning. -/
theorem searchFrom_closed {pat : π} (hpat : lib.pattern pattern = .ok pat)
    (h : opened lib read pattern file = none) (hroom : output.results.length ≤ limit) :
    ∃ warnings, searchFrom lib matchResult read pattern limit output (file :: files) =
      searchFrom lib matchResult read pattern limit { output with warnings := warnings }
        files := by
  rw [searchFrom, if_neg (by omega)]
  cases hread : read file.absolutePath with
  | error err => exact ⟨_, rfl⟩
  | ok source =>
      cases hdoc : lib.doc source with
      | error err =>
          simp only [hpat, hdoc]
          exact ⟨_, rfl⟩
      | ok doc =>
          rw [opened_eq_some_iff.mpr ⟨hread, hpat, hdoc⟩] at h
          cases h

/-- With a pattern that cannot be read nothing is found. -/
theorem searchFrom_invalid {err : String} (hpat : lib.pattern pattern = .error err)
    (files : List StructuralFile) (output : StructuralSearchOutput ρ) :
    (searchFrom lib matchResult read pattern limit output files).results = output.results ∧
      (searchFrom lib matchResult read pattern limit output files).truncated =
        output.truncated := by
  induction files generalizing output with
  | nil => exact ⟨rfl, rfl⟩
  | cons file files ih =>
      rw [searchFrom]
      split
      · exact ⟨rfl, rfl⟩
      · cases hread : read file.absolutePath with
        | error text => exact ih { output with warnings := _ }
        | ok source =>
            simp only [hpat, and_self]

theorem allResults_cons : allResults lib matchResult read pattern (file :: files) =
    (matchesIn lib read pattern file).map
      (matchResult file.relativePath (sourceOf read file)) ++
    allResults lib matchResult read pattern files := rfl

theorem allResults_invalid {err : String} (hpat : lib.pattern pattern = .error err)
    (files : List StructuralFile) : allResults lib matchResult read pattern files = [] := by
  rw [allResults, List.flatMap_eq_nil_iff]
  intro file _
  rw [matchesIn_of_closed (opened_of_pattern hpat), List.map_nil]

/-- **The search from some file on**: the matches that are still allowed, and whether there are
more. -/
theorem searchFrom_spec (files : List StructuralFile) (h : output.results.length ≤ limit) :
    (searchFrom lib matchResult read pattern limit output files).results =
        output.results ++ (allResults lib matchResult read pattern files).take
          (limit - output.results.length) ∧
      ((searchFrom lib matchResult read pattern limit output files).truncated = true ↔
        output.truncated = true ∨ limit <
          output.results.length + (allResults lib matchResult read pattern files).length) := by
  cases hpat : lib.pattern pattern with
  | error err =>
      obtain ⟨hresults, htruncated⟩ : (searchFrom lib matchResult read pattern limit output
          files).results = output.results ∧
          (searchFrom lib matchResult read pattern limit output files).truncated =
            output.truncated := searchFrom_invalid hpat files output
      have hnot : ¬ limit < output.results.length := by omega
      simp [hresults, htruncated, allResults_invalid hpat, hnot]
  | ok pat =>
      induction files generalizing output with
      | nil =>
          have hnot : ¬ limit < output.results.length := by omega
          simp [searchFrom, allResults, hnot]
      | cons file files ih =>
          rw [allResults_cons]
          cases hopened : opened lib read pattern file with
          | none =>
              obtain ⟨warnings, hstep⟩ : ∃ warnings, searchFrom lib matchResult read pattern limit
                  output (file :: files) = searchFrom lib matchResult read pattern limit
                    { output with warnings := warnings } files := searchFrom_closed hpat hopened h
              rw [hstep, matchesIn_of_closed hopened]
              have hrest : { output with warnings := warnings }.results.length ≤ limit := h
              exact ih hrest
          | some triple =>
              obtain ⟨source, doc, pat'⟩ := triple
              rw [searchFrom_opened hopened h, matchesIn_of_opened hopened,
                sourceOf_of_opened hopened, searchMatches_eq _ _ _ h]
              generalize hrs : (lib.findAll doc pat').map
                (matchResult file.relativePath source) = rs
              have hlength : (lib.findAll doc pat').length = rs.length := by
                rw [← hrs, List.length_map]
              have hfits : { output with
                  results := output.results ++ rs.take (limit - output.results.length)
                  truncated := output.truncated || decide (limit <
                    output.results.length + (lib.findAll doc pat').length) }.results.length ≤
                  limit := by
                rw [List.length_append, List.length_take]
                omega
              obtain ⟨hresults, htruncated⟩ := ih hfits
              refine ⟨?_, ?_⟩
              · have hleft : limit - (output.results ++
                    rs.take (limit - output.results.length)).length =
                    limit - output.results.length - rs.length := by
                  rw [List.length_append, List.length_take]
                  omega
                dsimp only at hresults
                rw [hresults, hleft, List.take_append, List.append_assoc]
              · rw [htruncated, Bool.or_eq_true, decide_eq_true_iff, hlength, or_assoc]
                refine or_congr_right ?_
                simp only [List.length_append, List.length_take]
                omega

end

/-! ### The patch -/

/-- The files that edits are made in, and how many. -/
def summaries (groups : List (StructuralFile × List Edit)) : List StructuralPatchFileSummary :=
  (groups.filter fun group => group.2 ≠ []).map fun group =>
    ⟨group.1.relativePath, group.2.length⟩

/-- The diff that edits make, file by file. -/
def diffs (lib : AstGrep π δ μ) (read : String → Except String Bytes)
    (groups : List (StructuralFile × List Edit)) : Bytes :=
  groups.flatMap fun group => diffOf lib group.1.relativePath (sourceOf read group.1) group.2

theorem diffs_cons (group : StructuralFile × List Edit)
    (groups : List (StructuralFile × List Edit)) : diffs lib read (group :: groups) =
      diffOf lib group.1.relativePath (sourceOf read group.1) group.2 ++ diffs lib read groups :=
  rfl

theorem summaries_cons (group : StructuralFile × List Edit)
    (groups : List (StructuralFile × List Edit)) :
    summaries (group :: groups) = summaries [group] ++ summaries groups := by
  rw [summaries, summaries, summaries, ← List.map_append, ← List.filter_append]
  rfl

theorem diffOf_nil (path : String) (source : Bytes) : diffOf lib path source [] = [] :=
  if_neg (not_not_intro rfl)

theorem summaries_of_empty {groups : List (StructuralFile × List Edit)}
    (h : ∀ group ∈ groups, group.2 = []) : summaries groups = [] := by
  rw [summaries, List.map_eq_nil_iff, List.filter_eq_nil_iff]
  intro group hgroup
  simp [h group hgroup]

theorem diffs_of_empty {groups : List (StructuralFile × List Edit)}
    (h : ∀ group ∈ groups, group.2 = []) : diffs lib read groups = [] := by
  rw [diffs, List.flatMap_eq_nil_iff]
  intro group hgroup
  rw [h group hgroup, diffOf_nil]

theorem allEdits_cons : allEdits lib read pattern rewrite (file :: files) =
    (editsIn lib read pattern rewrite file).map (file, ·) ++
      allEdits lib read pattern rewrite files := rfl

theorem length_allEdits_cons (file : StructuralFile) (files : List StructuralFile) :
    (allEdits lib read pattern rewrite (file :: files)).length =
      (editsIn lib read pattern rewrite file).length +
        (allEdits lib read pattern rewrite files).length := by
  rw [allEdits_cons, List.length_append, List.length_map]

/-- What the patch from some file on adds to an output. -/
structure Patched (lib : AstGrep π δ μ) (read : String → Except String Bytes)
    (pattern rewrite : String) (remaining : Nat) (files : List StructuralFile)
    (output result : StructuralPatchOutput) : Prop where
  numMatches : result.numMatches =
    output.numMatches + min remaining (allEdits lib read pattern rewrite files).length
  summarised : result.files =
    output.files ++ summaries (cut remaining (fileEdits lib read pattern rewrite files))
  diff : result.diff =
    output.diff ++ diffs lib read (cut remaining (fileEdits lib read pattern rewrite files))
  truncated : result.truncated = true ↔ output.truncated = true ∨
    remaining < (allEdits lib read pattern rewrite files).length ∨
    files ≠ [] ∧ remaining ≤ (allEdits lib read pattern rewrite files.dropLast).length

section

variable {output result : StructuralPatchOutput} {remaining : Nat}

theorem patchFrom_closed {pat : π} (hpat : lib.pattern pattern = .ok pat)
    (h : opened lib read pattern file = none) (hroom : remaining ≠ 0) :
    ∃ warnings, patchFrom lib read pattern rewrite remaining output (file :: files) =
      patchFrom lib read pattern rewrite remaining { output with warnings := warnings } files := by
  rw [patchFrom, if_neg hroom]
  cases hread : read file.absolutePath with
  | error err => exact ⟨_, rfl⟩
  | ok source =>
      cases hdoc : lib.doc source with
      | error err =>
          simp only [hpat, hdoc]
          exact ⟨_, rfl⟩
      | ok doc =>
          rw [opened_eq_some_iff.mpr ⟨hread, hpat, hdoc⟩] at h
          cases h

/-- One form for a file with edits and a file without. -/
theorem patchFrom_opened {source : Bytes} {doc : δ} {pat : π}
    (h : opened lib read pattern file = some (source, doc, pat)) (hroom : remaining ≠ 0) :
    patchFrom lib read pattern rewrite remaining output (file :: files) =
      patchFrom lib read pattern rewrite
        (remaining - ((editsIn lib read pattern rewrite file).take remaining).length)
        { output with
          truncated := output.truncated ||
            decide (remaining < (editsIn lib read pattern rewrite file).length)
          numMatches := output.numMatches +
            ((editsIn lib read pattern rewrite file).take remaining).length
          files := output.files ++
            summaries [(file, (editsIn lib read pattern rewrite file).take remaining)]
          diff := output.diff ++
            diffs lib read [(file, (editsIn lib read pattern rewrite file).take remaining)] }
        files := by
  obtain ⟨hread, hpat, hdoc⟩ := opened_eq_some_iff.mp h
  rw [patchFrom, if_neg hroom, editsIn_of_opened h]
  simp only [hread, hpat, hdoc]
  generalize lib.replaceAll doc pat rewrite = found
  have hdiff : diffs lib read [(file, found.take remaining)] =
      diffOf lib file.relativePath source (found.take remaining) := by
    rw [diffs, List.flatMap_cons, List.flatMap_nil, List.append_nil, sourceOf_of_opened h]
  have hflag : (if found.length > remaining then { output with truncated := true } else output) =
      { output with truncated := output.truncated || decide (remaining < found.length) } := by
    split
    · rw [decide_eq_true (by omega), Bool.or_true]
    · rw [decide_eq_false (by omega), Bool.or_false]
  rw [hflag, hdiff]
  split
  · rename_i hnone
    rw [hnone, diffOf_nil]
    simp [summaries]
  · rename_i hsome
    have hone : summaries [(file, found.take remaining)] =
        [⟨file.relativePath, (found.take remaining).length⟩] := by
      simp only [summaries, List.filter_cons, decide_not, hsome, decide_false, Bool.not_false,
        if_true, List.filter_nil, List.map_cons, List.map_nil]
    rw [hone]

/-- Edits that are none, or a budget that is used up, add nothing. -/
theorem Patched.of_empty (h : remaining = 0 ∨ ∀ group ∈
      fileEdits lib read pattern rewrite files, group.2 = [])
    (hnumMatches : result.numMatches = output.numMatches) (hfiles : result.files = output.files)
    (hdiff : result.diff = output.diff)
    (htruncated : result.truncated = true ↔ output.truncated = true ∨
      files ≠ [] ∧ remaining ≤ (allEdits lib read pattern rewrite files.dropLast).length) :
    Patched lib read pattern rewrite remaining files output result := by
  have hempty (group : StructuralFile × List Edit)
      (hgroup : group ∈ cut remaining (fileEdits lib read pattern rewrite files)) :
      group.2 = [] := snd_of_mem_cut h hgroup
  have htotal : remaining = 0 ∨ (allEdits lib read pattern rewrite files).length = 0 := by
    refine h.imp_right fun hnone => ?_
    rw [List.length_eq_zero_iff, allEdits, groupMembers, List.flatMap_eq_nil_iff]
    intro group hgroup
    rw [hnone group hgroup, List.map_nil]
  refine ⟨by omega, ?_, ?_, ?_⟩
  · rw [hfiles, summaries_of_empty hempty, List.append_nil]
  · rw [hdiff, diffs_of_empty hempty, List.append_nil]
  · rw [htruncated]
    refine or_congr_right ⟨.inr, ?_⟩
    rintro (hlt | h)
    · -- more edits than the budget: the budget is nothing, and the edits are in some file
      obtain rfl : remaining = 0 := by omega
      refine ⟨?_, Nat.zero_le _⟩
      rintro rfl
      exact absurd hlt (Nat.lt_irrefl _)
    · exact h

theorem patchFrom_invalid {err : String} (hpat : lib.pattern pattern = .error err)
    (hroom : remaining ≠ 0) (files : List StructuralFile) (output : StructuralPatchOutput) :
    ∃ warnings, patchFrom lib read pattern rewrite remaining output files =
      { output with warnings := warnings } := by
  induction files generalizing output with
  | nil => exact ⟨_, rfl⟩
  | cons file files ih =>
      rw [patchFrom, if_neg hroom]
      cases hread : read file.absolutePath with
      | error text => exact ih { output with warnings := _ }
      | ok source =>
          simp only [hpat]
          exact ⟨_, rfl⟩

theorem dropLast_cons_length (file : StructuralFile) (files : List StructuralFile) :
    (allEdits lib read pattern rewrite (file :: files).dropLast).length =
      if files = [] then 0
      else (editsIn lib read pattern rewrite file).length +
        (allEdits lib read pattern rewrite files.dropLast).length := by
  cases files with
  | nil => rfl
  | cons other files => rw [if_neg (by simp), List.dropLast_cons_cons, length_allEdits_cons]

/-- **The patch from some file on**: the edits that are still allowed; the flag is also set when
the budget is used up before the last file. -/
theorem patchFrom_spec (files : List StructuralFile) (remaining : Nat)
    (output : StructuralPatchOutput) :
    Patched lib read pattern rewrite remaining files output
      (patchFrom lib read pattern rewrite remaining output files) := by
  induction files generalizing remaining output with
  | nil => exact .of_empty (.inr (List.forall_mem_nil _)) rfl rfl rfl (by simp [patchFrom])
  | cons file files ih =>
      by_cases hroom : remaining = 0
      · -- no budget: the flag is set, whatever the files hold
        subst hroom
        refine .of_empty (.inl rfl) ?_ ?_ ?_ ?_ <;> simp [patchFrom]
      cases hpat : lib.pattern pattern with
      | error err =>
          obtain ⟨warnings, heq⟩ : ∃ warnings, patchFrom lib read pattern rewrite remaining output
              (file :: files) = { output with warnings := warnings } :=
            patchFrom_invalid hpat hroom (file :: files) output
          have hnone (groups : List StructuralFile) :
              ∀ group ∈ fileEdits lib read pattern rewrite groups, group.2 = [] := by
            intro group hgroup
            obtain ⟨other, -, rfl⟩ := List.mem_map.mp hgroup
            exact editsIn_of_closed (opened_of_pattern hpat)
          have hzero : allEdits lib read pattern rewrite (file :: files).dropLast = [] := by
            rw [allEdits, groupMembers, List.flatMap_eq_nil_iff]
            intro group hgroup
            rw [hnone _ group hgroup, List.map_nil]
          rw [heq]
          refine .of_empty (.inr (hnone _)) rfl rfl rfl ?_
          simp [hzero, hroom]
      | ok pat =>
          have htotal : (allEdits lib read pattern rewrite (file :: files)).length = _ :=
            length_allEdits_cons file files
          have hlast : (allEdits lib read pattern rewrite (file :: files).dropLast).length = _ :=
            dropLast_cons_length file files
          have hcut : cut remaining (fileEdits lib read pattern rewrite (file :: files)) =
              (file, (editsIn lib read pattern rewrite file).take remaining) ::
                cut (remaining - (editsIn lib read pattern rewrite file).length)
                  (fileEdits lib read pattern rewrite files) := rfl
          have hnil : files = [] →
              (allEdits lib read pattern rewrite files).length = 0 := fun h => h ▸ rfl
          cases hopened : opened lib read pattern file with
          | none =>
              obtain ⟨warnings, hstep⟩ : ∃ warnings, patchFrom lib read pattern rewrite remaining
                  output (file :: files) = patchFrom lib read pattern rewrite remaining
                    { output with warnings := warnings } files :=
                patchFrom_closed hpat hopened hroom
              have hrest := ih remaining { output with warnings := warnings }
              have hnone : editsIn lib read pattern rewrite file = [] := editsIn_of_closed hopened
              rw [hnone, List.take_nil, List.length_nil, Nat.sub_zero] at hcut
              rw [hnone, List.length_nil] at htotal hlast
              rw [hstep]
              refine ⟨?_, ?_, ?_, ?_⟩
              · rw [hrest.numMatches, htotal, Nat.zero_add]
              · have hsummary : summaries [(file, ([] : List Edit))] = [] :=
                  summaries_of_empty (by simp)
                rw [hrest.summarised, hcut, summaries_cons, hsummary, List.nil_append]
              · rw [hrest.diff, hcut, diffs_cons, diffOf_nil, List.nil_append]
              · rw [hrest.truncated, htotal, hlast]
                refine or_congr_right ?_
                by_cases hfiles : files = []
                · simp [hfiles, hroom]
                · simp [hfiles]
          | some triple =>
              obtain ⟨source, doc, pat'⟩ := triple
              rw [patchFrom_opened hopened hroom]
              have hrest := ih
                (remaining - ((editsIn lib read pattern rewrite file).take remaining).length)
                { output with
                  truncated := output.truncated ||
                    decide (remaining < (editsIn lib read pattern rewrite file).length)
                  numMatches := output.numMatches +
                    ((editsIn lib read pattern rewrite file).take remaining).length
                  files := output.files ++
                    summaries [(file, (editsIn lib read pattern rewrite file).take remaining)]
                  diff := output.diff ++ diffs lib read
                    [(file, (editsIn lib read pattern rewrite file).take remaining)] }
              generalize hedits : editsIn lib read pattern rewrite file = edits at *
              have hleft : remaining - (edits.take remaining).length =
                  remaining - edits.length := by
                rw [List.length_take]
                omega
              rw [hleft] at hrest ⊢
              refine ⟨?_, ?_, ?_, ?_⟩
              · rw [hrest.numMatches, htotal, List.length_take]
                dsimp only
                omega
              · rw [hrest.summarised, hcut, summaries_cons (file, edits.take remaining)
                  (cut (remaining - edits.length) (fileEdits lib read pattern rewrite files)),
                  List.append_assoc]
              · rw [hrest.diff, hcut, diffs_cons, diffs_cons, List.append_assoc, List.append_assoc]
                rfl
              · rw [hrest.truncated, htotal, hlast, Bool.or_eq_true, decide_eq_true_iff, or_assoc]
                refine or_congr_right ?_
                by_cases hfiles : files = []
                · have hzero := hnil hfiles
                  simp only [hfiles, ne_eq, not_true_eq_false, false_and, or_false,
                    reduceCtorEq, not_false_eq_true, true_and, if_true] at hzero ⊢
                  omega
                · simp only [hfiles, ne_eq, not_false_eq_true, true_and, if_false,
                    reduceCtorEq]
                  omega

end

/-! ## Exact truncation -/

/-- Where an edit is made. -/
def place (edit : StructuralFile × Edit) : StructuralFile × Nat := (edit.1, edit.2.position)

/-- The search reports, and the patch rewrites, the first matches up to the limit, and each says
that it is truncated when there are more. -/
structure TruncatesExactly (lib : AstGrep π δ μ) (matchResult : String → Bytes → μ → ρ)
    (read : String → Except String Bytes) (pattern rewrite : String) (limit : Nat)
    (files : List StructuralFile) : Prop where
  reported : (searchFiles lib matchResult read pattern limit files).results =
    (allResults lib matchResult read pattern files).take limit
  search : (searchFiles lib matchResult read pattern limit files).truncated = true ↔
    limit < (allMatches lib read pattern files).length
  rewritten : (groupMembers (cut limit (fileEdits lib read pattern rewrite files))).map place =
    (allMatches lib read pattern files).take limit
  numMatches : (patchFiles lib read pattern rewrite limit files).numMatches =
    min limit (allMatches lib read pattern files).length
  made : (patchFiles lib read pattern rewrite limit files).files =
      summaries (cut limit (fileEdits lib read pattern rewrite files)) ∧
    (patchFiles lib read pattern rewrite limit files).diff =
      diffs lib read (cut limit (fileEdits lib read pattern rewrite files))
  patch : (patchFiles lib read pattern rewrite limit files).truncated = true ↔
    limit < (allMatches lib read pattern files).length

/-- The edits before the last file use the limit up. -/
def UsedUpBefore (lib : AstGrep π δ μ) (read : String → Except String Bytes)
    (pattern rewrite : String) (limit : Nat) (files : List StructuralFile) : Prop :=
  files ≠ [] ∧ limit ≤ (allEdits lib read pattern rewrite files.dropLast).length

/-- The edits are made at the first matches, so that none of these is inside another; when the limit
is the number of matches, there is no other edit and it is not used up before the last file; and
when it is smaller, it is, or there is another edit. -/
structure EditsFollow (lib : AstGrep π δ μ) (read : String → Except String Bytes)
    (pattern rewrite : String) (limit : Nat) (files : List StructuralFile) : Prop where
  places : ((allEdits lib read pattern rewrite files).take limit).map place =
    (allMatches lib read pattern files).take limit
  none : (allMatches lib read pattern files).length = limit →
    (allEdits lib read pattern rewrite files).length ≤ limit ∧
      ¬ UsedUpBefore lib read pattern rewrite limit files
  more : limit < (allMatches lib read pattern files).length →
    limit < (allEdits lib read pattern rewrite files).length ∨
      UsedUpBefore lib read pattern rewrite limit files

theorem length_allResults (files : List StructuralFile) :
    (allResults lib matchResult read pattern files).length =
      (allMatches lib read pattern files).length := by
  simp [allResults, allMatches, List.length_flatMap]

/-- The search is exact, for all files and limits. -/
theorem searchFiles_exact (files : List StructuralFile) :
    (searchFiles lib matchResult read pattern limit files).results =
        (allResults lib matchResult read pattern files).take limit ∧
      ((searchFiles lib matchResult read pattern limit files).truncated = true ↔
        limit < (allMatches lib read pattern files).length) := by
  have hspec : (searchFrom lib matchResult read pattern limit {} files).results = _ ∧
      ((searchFrom lib matchResult read pattern limit {} files).truncated = true ↔ _) :=
    searchFrom_spec files (Nat.zero_le _)
  have hlength : (allResults lib matchResult read pattern files).length = _ :=
    length_allResults files
  rw [← hlength]
  simpa [searchFiles] using hspec

theorem usedUpBefore_le (h : UsedUpBefore lib read pattern rewrite limit files) :
    limit ≤ (allEdits lib read pattern rewrite files).length := by
  obtain ⟨hne, hle⟩ := h
  have hsplit : allEdits lib read pattern rewrite files =
      allEdits lib read pattern rewrite files.dropLast ++
        allEdits lib read pattern rewrite [files.getLast hne] := by
    conv_lhs => rw [← List.dropLast_append_getLast hne]
    simp [allEdits, fileEdits, groupMembers]
  rw [hsplit, List.length_append]
  omega

/-- **Truncation is exact just when the edits follow the matches.** -/
theorem truncatesExactly_iff (files : List StructuralFile) :
    TruncatesExactly lib matchResult read pattern rewrite limit files ↔
      EditsFollow lib read pattern rewrite limit files := by
  obtain ⟨hreported, hsearch⟩ :
      (searchFiles lib matchResult read pattern limit files).results = _ ∧
        ((searchFiles lib matchResult read pattern limit files).truncated = true ↔ _) :=
    searchFiles_exact files
  have hpatch : Patched lib read pattern rewrite limit files {} _ := patchFrom_spec files limit {}
  have hmembers := groupMembers_cut limit (fileEdits lib read pattern rewrite files)
  have hused : UsedUpBefore lib read pattern rewrite limit files → _ := usedUpBefore_le
  have hflag := hpatch.truncated
  simp only [Bool.false_eq_true, false_or] at hflag
  -- the two numbers agree as far as the limit when the places do
  have hlengths (h : ((allEdits lib read pattern rewrite files).take limit).map place =
      (allMatches lib read pattern files).take limit) :
      min limit (allEdits lib read pattern rewrite files).length =
        min limit (allMatches lib read pattern files).length := by
    have := congrArg List.length h
    rwa [List.length_map, List.length_take, List.length_take] at this
  constructor
  · intro h
    have hplaces := h.rewritten
    rw [hmembers] at hplaces
    have hexact := hflag.symm.trans h.patch
    refine ⟨hplaces, ?_, ?_⟩
    · intro hequal
      have hnot := mt hexact.mp (by omega)
      rw [not_or] at hnot
      exact ⟨by omega, hnot.2⟩
    · intro hmore
      exact hexact.mpr hmore
  · intro h
    have hmin := hlengths h.places
    refine ⟨hreported, hsearch, ?_, ?_, ⟨?_, ?_⟩, ?_⟩
    · rw [hmembers]
      exact h.places
    · rw [patchFiles, hpatch.numMatches, Nat.zero_add, hmin]
    · rw [patchFiles, hpatch.summarised, List.nil_append]
    · rw [patchFiles, hpatch.diff, List.nil_append]
    · rw [patchFiles, hflag]
      constructor
      · -- the flag is set: the limit is used up, and with as many matches it would not be set
        intro hset
        have hle : limit ≤ (allEdits lib read pattern rewrite files).length :=
          hset.elim Nat.le_of_lt hused
        by_contra hnot
        obtain ⟨hedits, hbefore⟩ := h.none (by omega)
        exact hset.elim (by omega) hbefore
      · intro hmore
        exact h.more hmore

end

/-! ## A file after the last match -/

/-- A language of bytes, in which a pattern is one `x` and matches every `x`. -/
def byteLib : AstGrep Unit Bytes Nat where
  pattern _ := .ok ()
  doc source := .ok source
  findAll doc _ := (List.range doc.length).filter fun i => doc[i]? = some 120
  start i := i
  replaceAll doc _ _ :=
    ((List.range doc.length).filter fun i => doc[i]? = some 120).map fun i => ⟨i, 1, [121]⟩
  unified _ _ _ new := new

/-- `a.rs` is one `x`, and every other file has none. -/
def byteFiles (path : String) : Except String Bytes :=
  .ok (if path = "/repo/a.rs" then [120] else [122])

/-- One match in the first of two files, and a limit of one: the patch says that it is truncated,
and there is no other match. -/
theorem patch_truncated_without_more : ¬ ∀ (read : String → Except String Bytes)
    (pattern rewrite : String) (limit : Nat) (files : List StructuralFile),
    TruncatesExactly byteLib (fun path _ start => (path, start)) read pattern rewrite limit
      files := by
  intro h
  have hpatch := (h byteFiles "x" "y" 1
    [⟨"/repo/a.rs", "a.rs"⟩, ⟨"/repo/b.rs", "b.rs"⟩]).patch
  exact absurd (hpatch.mp (by decide +kernel)) (by decide +kernel)

end Sulion.CodeIntel
