import Sulion.CodeIntel.SourceTree

set_option autoImplicit false

/-! # Refreshing a root and a path of it

What `mark_dirty_inner` does to the rows of `code_files`: the discovered files have a row that is
not deleted, and the rows in the deletion scope that were not discovered are deleted. A root is
walked from its top. A directory below it is walked from there, and a file is looked at directly:
then nobody asks whether the walk from the top would have come so far.

Of a row only its path and whether it is deleted matter here. Both modes leave a discovered file
with a row that is not deleted.
-/

namespace Sulion.CodeIntel.Refresh

/-! ## The model -/

/-- The `path` of a row. -/
abbrev Key := List Char

/-- `relative_path`. -/
def relativePath (path : RelPath) : Key :=
  (List.intercalate ['/'] path).map fun c => if c = '\\' then '/' else c

/-- `trim_end_matches('/')`. -/
def trimEnd (key : Key) : Key := key.rdropWhile (· = '/')

/-- What a path to a directory begins with. -/
def startOf (key : Key) : Key := trimEnd key ++ ['/']

inductive DeletionScope
  | root
  | prefixed (start : Key)
  | exact (key : Key)
  | missingPath (key : Key)

def DeletionScope.covers : DeletionScope → Key → Bool
  | .root, _ => true
  | .prefixed start, key => start.isPrefixOf key
  | .exact path, key => key = path
  | .missingPath missing, key => key = missing || (startOf missing).isPrefixOf key

inductive IndexScope
  | root
  | path (path : RelPath)

def isFile (tree : Tree) (path : RelPath) : Bool :=
  match tree.root.locate path with
  | some (.file _) => true
  | _ => false

def isDir (tree : Tree) (path : RelPath) : Bool :=
  match tree.root.locate path with
  | some (.dir _) => true
  | _ => false

def deletionScopeForPath (tree : Tree) (path : RelPath) : DeletionScope :=
  let relative := relativePath path
  if isFile tree path then .exact relative
  else if isDir tree path then
    if relative = [] then .root else .prefixed (startOf relative)
  else .missingPath relative

/-- `discover_source_files`, from a path that there is. -/
def discoverSourceFiles (w : Walk) (tree : Tree) (path : RelPath) : List RelPath :=
  match tree.root.locate path with
  | some node => node.walk w path
  | none => []

def sourceFileCandidateInRoot (w : Walk) (tree : Tree) (path : RelPath) : Option RelPath :=
  if isIgnoredPathInRoot path then none
  else
    match tree.root.locate path with
    | some (.file content) =>
        if sourceFileCandidate w.maxFileBytes path content then some path else none
    | _ => none

def discoverPath (w : Walk) (tree : Tree) (path : RelPath) : List RelPath × DeletionScope :=
  if path = [] then (discoverSourceFiles w tree [], .root)
  else if isDir tree path then
    let relative := relativePath path
    let deletionScope := if relative = [] then .root else .prefixed (startOf relative)
    (discoverSourceFiles w tree path, deletionScope)
  else if isFile tree path then
    ((sourceFileCandidateInRoot w tree path).toList, .exact (relativePath path))
  else ([], .missingPath (relativePath path))

def discoverScopeCandidates (w : Walk) (tree : Tree) : IndexScope → List RelPath × DeletionScope
  | .root => (discoverSourceFiles w tree [], .root)
  | .path path =>
      if isIgnoredPathInRoot path then ([], deletionScopeForPath tree path)
      else discoverPath w tree path

/-- The rows of a root that are not deleted. -/
abbrev Rows := Key → Bool

/-- `mark_deleted_files`. -/
def markDeletedFiles (rows : Rows) (seenPaths : List Key) (scope : DeletionScope) : Rows :=
  fun key => rows key && !(scope.covers key && !seenPaths.contains key)

def markDirty (w : Walk) (tree : Tree) (rows : Rows) (scope : IndexScope) : Rows :=
  let (candidates, deletionScope) := discoverScopeCandidates w tree scope
  let seenPaths := candidates.map relativePath
  markDeletedFiles (fun key => rows key || seenPaths.contains key) seenPaths deletionScope

/-! ## Agreement -/

/-- A row is at a path or below it. -/
def AtOrBelow (path : RelPath) (key : Key) : Prop :=
  relativePath path = [] ∨ key = relativePath path ∨ startOf (relativePath path) <+: key

/-- A refresh of a path leaves there what a refresh of the root leaves there, and the rest alone. -/
structure Agrees (w : Walk) (tree : Tree) (rows : Rows) (path : RelPath) : Prop where
  atOrBelow : ∀ key, AtOrBelow path key →
    markDirty w tree rows (.path path) key = markDirty w tree rows .root key
  outside : ∀ key, ¬ AtOrBelow path key → markDirty w tree rows (.path path) key = rows key

/-- The walk from the root goes to the path: it skips neither the path nor a directory above it, and
none of them is a link. -/
def Reached (w : Walk) (tree : Tree) (path : RelPath) : Prop :=
  ∃ node, tree.root.descend w [] path = some node ∧ node.follow = some node

/-- The files below the root that the walk from its top finds. -/
def rootFiles (w : Walk) (tree : Tree) : List RelPath := tree.root.walk w []

/-- A file that the walk finds has the row. -/
def Found (w : Walk) (tree : Tree) (key : Key) : Prop :=
  ∃ p ∈ rootFiles w tree, relativePath p = key

/-- The files that are there to be seen from the path on. -/
def filesFrom (w : Walk) (tree : Tree) (path : RelPath) : List RelPath :=
  if isIgnoredPathInRoot path then [] else discoverSourceFiles w tree path

/-- The walk from the root goes to the path, or no file is seen from there that it does not find; no
row stays out of the deletion scope that the walk does not find; and no file elsewhere has its row
there, as one whose name holds a backslash can. -/
structure Consistent (w : Walk) (tree : Tree) (rows : Rows) (path : RelPath) : Prop where
  reached : Reached w tree path ∨ ∀ p ∈ filesFrom w tree path, Found w tree (relativePath p)
  left : ∀ key, AtOrBelow path key → (deletionScopeForPath tree path).covers key = false →
    rows key = true → Found w tree key
  elsewhere : ∀ p ∈ rootFiles w tree, ¬ path <+: p → AtOrBelow path (relativePath p) →
    (∃ p' ∈ filesFrom w tree path, relativePath p' = relativePath p) ∨
      (rows (relativePath p) = true ∧
        (deletionScopeForPath tree path).covers (relativePath p) = false)

variable {w : Walk} {tree : Tree} {rows : Rows} {path p : RelPath} {key : Key}

/-! ## Paths of rows -/

/-- The slashes at the end of a key come back before what stands below it. -/
theorem startOf_isPrefix (key : Key) : startOf key <+: key ++ ['/'] := by
  have hslashes : key.rtakeWhile (· = '/') ++ ['/'] = '/' :: key.rtakeWhile (· = '/') := by
    have hall : key.rtakeWhile (· = '/') =
        List.replicate (key.rtakeWhile (· = '/')).length '/' :=
      List.eq_replicate_of_mem fun c hc => by simpa using List.mem_rtakeWhile_imp hc
    rw [hall, ← List.replicate_succ, ← List.replicate_succ']
  refine ⟨key.rtakeWhile (· = '/'), ?_⟩
  conv_rhs => rw [← List.rdropWhile_append_rtakeWhile (p := (· = '/')) (l := key)]
  rw [startOf, trimEnd, List.append_assoc, List.append_assoc, hslashes]
  rfl

theorem relativePath_append (hpath : path ≠ []) {rest : RelPath} (hrest : rest ≠ []) :
    relativePath (path ++ rest) = relativePath path ++ ['/'] ++ relativePath rest := by
  have hjoin : List.intercalate ['/'] (path ++ rest) =
      List.intercalate ['/'] path ++ ['/'] ++ List.intercalate ['/'] rest := by
    induction path with
    | nil => exact absurd rfl hpath
    | cons name path ih =>
        cases path with
        | nil =>
            rw [List.singleton_append, List.intercalate_cons_of_ne_nil hrest,
              List.intercalate_singleton]
        | cons next path =>
            have hne : next :: path ≠ [] := List.cons_ne_nil _ _
            rw [List.cons_append, List.intercalate_cons_of_ne_nil (by simp), ih hne,
              List.intercalate_cons_of_ne_nil hne]
            simp
  rw [relativePath, relativePath, relativePath, hjoin, List.map_append, List.map_append]
  rfl

/-- What stands below a path has its row below it. -/
theorem atOrBelow_append (path rest : RelPath) : AtOrBelow path (relativePath (path ++ rest)) := by
  rcases eq_or_ne path [] with rfl | hpath
  · exact .inl rfl
  rcases eq_or_ne rest [] with rfl | hrest
  · rw [List.append_nil]
    exact .inr (.inl rfl)
  · rw [relativePath_append hpath hrest]
    exact .inr (.inr ((startOf_isPrefix _).trans (List.prefix_append _ _)))

/-- The deletion scope of a path does not go beyond it. -/
theorem atOrBelow_of_covers (h : (deletionScopeForPath tree path).covers key = true) :
    AtOrBelow path key := by
  rw [deletionScopeForPath] at h
  split at h
  · exact .inr (.inl (of_decide_eq_true h))
  · split at h
    · split at h
      · rename_i hempty
        exact .inl hempty
      · exact .inr (.inr (List.isPrefixOf_iff_prefix.mp h))
    · rcases Bool.or_eq_true_iff.mp h with h | h
      · exact .inr (.inl (of_decide_eq_true h))
      · exact .inr (.inr (List.isPrefixOf_iff_prefix.mp h))

/-! ## What a refresh leaves -/

theorem deletionScope_eq (w : Walk) (tree : Tree) (path : RelPath) :
    (discoverScopeCandidates w tree (.path path)).2 = deletionScopeForPath tree path := by
  rw [discoverScopeCandidates]
  split
  · rfl
  · rw [discoverPath]
    split
    · rename_i hempty
      subst hempty
      rfl
    · dsimp only
      split
      · rename_i hdir
        have hfile : isFile tree path = false := by
          unfold isDir at hdir
          unfold isFile
          split at hdir <;> simp_all
        rw [deletionScopeForPath, hfile, hdir]
        rfl
      · rename_i hdir
        split
        · rename_i hfile
          rw [deletionScopeForPath, if_pos hfile]
        · rename_i hfile
          rw [deletionScopeForPath, if_neg hfile, if_neg hdir]

theorem candidates_eq (w : Walk) (tree : Tree) (path : RelPath) :
    (discoverScopeCandidates w tree (.path path)).1 = filesFrom w tree path := by
  rw [discoverScopeCandidates, filesFrom]
  split
  · rfl
  · rename_i hignored
    rw [discoverPath]
    split
    · rename_i hempty
      subst hempty
      rfl
    · dsimp only
      split
      · rfl
      · rename_i hdir
        split
        · rename_i hfile
          unfold isFile at hfile
          split at hfile
          · rename_i content hlocate
            rw [sourceFileCandidateInRoot, if_neg hignored, discoverSourceFiles, hlocate]
            dsimp only
            rw [Node.walk]
            split <;> rfl
          · cases hfile
        · rename_i hfile
          unfold isFile at hfile
          unfold isDir at hdir
          rw [discoverSourceFiles]
          cases hlocate : tree.root.locate path with
          | none => rfl
          | some node =>
              rw [hlocate] at hfile hdir
              cases node with
              | file content => exact absurd rfl hfile
              | dir entries => exact absurd rfl hdir
              | _ => rfl

/-- **The rows behind a refresh**: the discovered ones, and of the others those out of scope. -/
theorem markDirty_iff (scope : IndexScope) :
    markDirty w tree rows scope key = true ↔
      (∃ p ∈ (discoverScopeCandidates w tree scope).1, relativePath p = key) ∨
        (rows key = true ∧ (discoverScopeCandidates w tree scope).2.covers key = false) := by
  have hseen : ((discoverScopeCandidates w tree scope).1.map relativePath).contains key = true ↔
      ∃ p ∈ (discoverScopeCandidates w tree scope).1, relativePath p = key := by
    rw [List.contains_iff_mem, List.mem_map]
  rw [← hseen]
  unfold markDirty markDeletedFiles
  dsimp only
  cases rows key <;>
    cases ((discoverScopeCandidates w tree scope).1.map relativePath).contains key <;>
    cases (discoverScopeCandidates w tree scope).2.covers key <;> simp

theorem markDirty_root_iff : markDirty w tree rows .root key = true ↔ Found w tree key := by
  rw [markDirty_iff]
  have hcovers : (discoverScopeCandidates w tree .root).2.covers key = true := rfl
  rw [hcovers]
  simp only [Bool.true_eq_false, and_false, or_false]
  rfl

theorem markDirty_path_iff : markDirty w tree rows (.path path) key = true ↔
    (∃ p ∈ filesFrom w tree path, relativePath p = key) ∨
      (rows key = true ∧ (deletionScopeForPath tree path).covers key = false) := by
  rw [markDirty_iff, candidates_eq, deletionScope_eq]

/-! ## What is discovered -/

theorem root_distinct (tree : Tree) : tree.root.Distinct := tree.distinct

/-- A file that the walk from the root finds at or below the path is seen from there. -/
theorem mem_filesFrom_of_rootFiles (h : p ∈ rootFiles w tree) (hbelow : path <+: p) :
    p ∈ filesFrom w tree path := by
  obtain ⟨rest, rfl⟩ := hbelow
  obtain ⟨rest', content, hp, hdescend, htake⟩ :=
    (tree.root.mem_walk (root_distinct tree) [] _).mp h
  rw [List.nil_append] at hp
  subst hp
  rw [Node.descend_append] at hdescend
  obtain ⟨node, hnode, hrest⟩ := Option.bind_eq_some_iff.mp hdescend
  have hfollow : node.follow = some node := by
    cases node with
    | file content => rfl
    | dir entries => rfl
    | _ => cases rest <;> cases hrest
  have hlocate : tree.root.locate path = some node :=
    (Node.locate_of_descend hnode).trans hfollow
  have hignored : isIgnoredPathInRoot path = false := Node.not_ignored_of_descend hnode
  rw [filesFrom, hignored, discoverSourceFiles, hlocate]
  exact (node.mem_walk (Node.distinct_of_locate (root_distinct tree) hlocate) path _).mpr
    ⟨rest, content, rfl, hrest, htake⟩

/-- A file that is seen from a path that the walk from the root comes to is found by it. -/
theorem mem_rootFiles_of_filesFrom (hreached : Reached w tree path)
    (h : p ∈ filesFrom w tree path) : p ∈ rootFiles w tree := by
  obtain ⟨node, hnode, hfollow⟩ := hreached
  have hlocate : tree.root.locate path = some node :=
    (Node.locate_of_descend hnode).trans hfollow
  rw [filesFrom, Node.not_ignored_of_descend hnode, discoverSourceFiles, hlocate] at h
  obtain ⟨rest, content, rfl, hrest, htake⟩ :=
    (node.mem_walk (Node.distinct_of_locate (root_distinct tree) hlocate) path p).mp h
  refine (tree.root.mem_walk (root_distinct tree) [] _).mpr ⟨path ++ rest, content, rfl, ?_, htake⟩
  rw [Node.descend_append, hnode]
  exact hrest

/-- What is seen from a path is at it or below it. -/
theorem isPrefix_of_mem_filesFrom (h : p ∈ filesFrom w tree path) : path <+: p := by
  rw [filesFrom] at h
  split at h
  · exact absurd h List.not_mem_nil
  · rw [discoverSourceFiles] at h
    split at h
    · rename_i node hlocate
      obtain ⟨rest, -, rfl, -, -⟩ :=
        (node.mem_walk (Node.distinct_of_locate (root_distinct tree) hlocate) path p).mp h
      exact List.prefix_append _ _
    · exact absurd h List.not_mem_nil

theorem atOrBelow_of_mem_filesFrom (h : p ∈ filesFrom w tree path) :
    AtOrBelow path (relativePath p) := by
  obtain ⟨rest, rfl⟩ := isPrefix_of_mem_filesFrom h
  exact atOrBelow_append path rest

/-- **A refresh of a path agrees with a refresh of the root just when the two are consistent
there.** -/
theorem agrees_iff_consistent (w : Walk) (tree : Tree) (rows : Rows) (path : RelPath) :
    Agrees w tree rows path ↔ Consistent w tree rows path := by
  constructor
  · rintro ⟨hat, -⟩
    have hiff (key : Key) (hkey : AtOrBelow path key) :=
      markDirty_path_iff.symm.trans ((Bool.eq_iff_iff.mp (hat key hkey)).trans markDirty_root_iff)
    refine ⟨.inr fun p hp => ?_, fun key hkey hout hrow => ?_, fun p hp _ hkey => ?_⟩
    · exact (hiff _ (atOrBelow_of_mem_filesFrom hp)).mp (.inl ⟨p, hp, rfl⟩)
    · exact (hiff key hkey).mp (.inr ⟨hrow, hout⟩)
    · exact (hiff _ hkey).mpr ⟨p, hp, rfl⟩
  · rintro ⟨hreached, hleft, helsewhere⟩
    refine ⟨fun key hkey => ?_, fun key hkey => ?_⟩
    · rw [Bool.eq_iff_iff, markDirty_path_iff, markDirty_root_iff]
      constructor
      · rintro (⟨p, hp, rfl⟩ | ⟨hrow, hout⟩)
        · rcases hreached with hreached | hfound
          · exact ⟨p, mem_rootFiles_of_filesFrom hreached hp, rfl⟩
          · exact hfound p hp
        · exact hleft key hkey hout hrow
      · rintro ⟨p, hp, rfl⟩
        by_cases hbelow : path <+: p
        · exact .inl ⟨p, mem_filesFrom_of_rootFiles hp hbelow, rfl⟩
        · exact helsewhere p hp hbelow hkey
    · -- outside nothing is discovered, and nothing is in scope
      have hcovers : (deletionScopeForPath tree path).covers key = false :=
        Bool.eq_false_iff.mpr fun h => hkey (atOrBelow_of_covers h)
      rw [Bool.eq_iff_iff, markDirty_path_iff, hcovers]
      constructor
      · rintro (⟨p, hp, rfl⟩ | ⟨hrow, -⟩)
        · exact absurd (atOrBelow_of_mem_filesFrom hp) hkey
        · exact hrow
      · exact fun hrow => .inr ⟨hrow, rfl⟩

/-- A root with a directory that an ignore file takes out, and a source file in it. -/
def ignoredTree : Tree where
  entries := .cons "gen".toList (.dir (.cons "a.rs".toList (.file []) .nil)) .nil
  distinct := ⟨rfl, ⟨rfl, trivial, trivial⟩, trivial⟩

def ignoringGen : Walk where
  ignores path := path = ["gen".toList]
  maxFileBytes := 2 * 1024 * 1024

/-- A refresh of the directory brings in a file that a refresh of the root takes out again. -/
theorem ignored_file_refreshed :
    ¬ ∀ (w : Walk) (tree : Tree) (rows : Rows) (path : RelPath) (key : Key),
    AtOrBelow path key →
      markDirty w tree rows (.path path) key = markDirty w tree rows .root key := by
  intro h
  have hkey := h ignoringGen ignoredTree (fun _ => false) ["gen".toList] "gen/a.rs".toList
    (.inr (.inr (by decide +kernel)))
  exact absurd hkey (by decide +kernel)

end Sulion.CodeIntel.Refresh
