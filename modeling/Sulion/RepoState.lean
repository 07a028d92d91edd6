import Sulion.Lib.Table
import Sulion.Rust.Ints
import Sulion.SignedPayloads

set_option autoImplicit false

/-! # The stored status of a repository

The poller reads the git status of a repository and writes it only when its fingerprint is not the
stored one. So the fingerprint must stand for everything that is stored, and whoever else writes
these rows must not leave it behind.

`fingerprint_inj` says for which statuses the first holds, and `reconcile_shows` what the second
needs: renaming and deleting a repository remove its dirty paths and keep its fingerprint.
-/

namespace Sulion.RepoState

open Rust TextLines Transition

/-! ## The status and its fingerprint -/

structure DiffStat where
  additions : Nat
  deletions : Nat
  deriving DecidableEq

/-- `GitStatus`, with the sha of its last commit. -/
structure GitStatus where
  branch : Option String
  originUrl : Option String
  uncommittedCount : Nat
  untrackedCount : Nat
  lastCommit : Option String
  dirtyByPath : Table String String
  diffStatsByPath : Table String DiffStat

def dirtyEntry (path code : String) (additions deletions : Nat) : String :=
  path ++ ":" ++ code ++ ":" ++ toString additions ++ ":" ++ toString deletions

/-- The part of a dirty path. -/
def dirtyPart (dirty : String × String × Option DiffStat) : String :=
  dirtyEntry dirty.1 dirty.2.1 (dirty.2.2.elim 0 (·.additions)) (dirty.2.2.elim 0 (·.deletions))

/-- The dirty paths in their order, each with its code and its stat. -/
def GitStatus.dirty (status : GitStatus) : List (String × String × Option DiffStat) :=
  status.dirtyByPath.toList.map fun p => (p.1, p.2, status.diffStatsByPath[p.1]?)

def statusFingerprint (status : GitStatus) : String :=
  unlines (["branch=" ++ status.branch.getD "", "origin=" ++ status.originUrl.getD "",
    "head=" ++ status.lastCommit.getD ""] ++ status.dirty.map dirtyPart)

/-! ## The tables -/

/-- A row of `repo_dirty_paths`. -/
structure DirtyRow where
  status : String
  additions : Option Int
  deletions : Option Int
  deriving DecidableEq

/-- A row of `repo_runtime_state`. -/
structure RepoRow where
  path : String
  isPresent : Bool
  branch : Option String
  originUrl : Option String
  headSha : Option String
  dirtyCount : Int
  untrackedCount : Int
  dirtyFingerprint : Option String

/-- A row that was only inserted. -/
def RepoRow.new (path : String) : RepoRow := ⟨path, true, none, none, none, 0, 0, none⟩

structure State where
  repos : String → Option RepoRow
  dirtyPaths : String → Table String DirtyRow

def State.empty : State := ⟨fun _ => none, fun _ => ∅⟩

/-- The rows of a status. -/
def GitStatus.rows (status : GitStatus) : Table String DirtyRow :=
  status.dirtyByPath.map fun path code =>
    let diff := status.diffStatsByPath[path]?
    ⟨code, diff.map fun d => asI32 d.additions, diff.map fun d => asI32 d.deletions⟩

def RepoRow.store (row : RepoRow) (status : GitStatus) : RepoRow :=
  { row with
    branch := status.branch
    originUrl := status.originUrl
    headSha := status.lastCommit
    dirtyCount := asI32 status.uncommittedCount
    untrackedCount := asI32 status.untrackedCount
    dirtyFingerprint := some (statusFingerprint status) }

/-! ## The writers -/

/-- `reconcile_repo_inner`, when no statement fails. -/
def reconcileRepoInner (s : State) (name : String) (row : RepoRow) (status : GitStatus) : State :=
  if row.dirtyFingerprint = some (statusFingerprint status) then s
  else
    { repos := Function.update s.repos name (some (row.store status))
      dirtyPaths := Function.update s.dirtyPaths name status.rows }

/-- The `INSERT … ON CONFLICT` of `upsert_repo`. -/
def upsertRepo (s : State) (name path : String) : State :=
  { s with
    repos := Function.update s.repos name (some (match s.repos name with
      | some row => { row with path := path, isPresent := true }
      | none => .new path)) }

/-- The scan leaves a repository in place alone. -/
def syncRepo (s : State) (repo : String × String) : State :=
  match s.repos repo.1 with
  | some row =>
      if row.isPresent = false ∨ row.path ≠ repo.2 then upsertRepo s repo.1 repo.2 else s
  | none => upsertRepo s repo.1 repo.2

def syncReposOnce (s : State) (repos : List (String × String)) : State :=
  repos.foldl syncRepo
    { s with
      repos := fun name => (s.repos name).map fun row =>
        if name ∈ repos.map (·.1) then row else { row with isPresent := false } }

def renameRepoRuntimeRecords (s : State) (oldName newName newPath : String) : State :=
  let dirtyPaths := Function.update (Function.update s.dirtyPaths oldName ∅) newName ∅
  let repos := Function.update s.repos newName none
  match repos oldName with
  | some row =>
      { repos := Function.update (Function.update repos oldName none) newName
          (some { row with path := newPath, isPresent := true })
        dirtyPaths := dirtyPaths }
  | none =>
      { repos := Function.update repos newName (some (.new newPath)), dirtyPaths := dirtyPaths }

def markRepoDeletedRecords (s : State) (name path : String) : State where
  repos := Function.update s.repos name
    ((s.repos name).map fun row => { row with isPresent := false, path := path })
  dirtyPaths := Function.update s.dirtyPaths name ∅

inductive Act
  | sync (repos : List (String × String))
  | upsert (name path : String)
  | rename (oldName newName newPath : String)
  | markDeleted (name path : String)
  /-- The poller has read `status`, and no statement fails. -/
  | reconcile (name : String) (status : GitStatus)

def step (s : State) : Act → Option State
  | .sync repos => some (syncReposOnce s repos)
  | .upsert name path => some (upsertRepo s name path)
  | .rename oldName newName newPath => some (renameRepoRuntimeRecords s oldName newName newPath)
  | .markDeleted name path => some (markRepoDeletedRecords s name path)
  | .reconcile name status =>
      match s.repos name with
      | some row => if row.isPresent then some (reconcileRepoInner s name row status) else none
      | none => none

/-! ## What the rows should show -/

/-- The rows are those of the status. -/
structure Shows (row : RepoRow) (dirtyPaths : Table String DirtyRow) (status : GitStatus) :
    Prop where
  branch : row.branch = status.branch
  originUrl : row.originUrl = status.originUrl
  headSha : row.headSha = status.lastCommit
  dirtyCount : row.dirtyCount = asI32 status.uncommittedCount
  untrackedCount : row.untrackedCount = asI32 status.untrackedCount
  dirtyPaths : dirtyPaths = status.rows

/-- A dirty path that the fingerprint tells from others: one line, a code of two characters, and
whether it has a stat is known where it would be 0 and 0. -/
structure PlainPath (hasStat : String → String → Bool) (dirty : String × String × Option DiffStat) :
    Prop where
  path : Plain dirty.1
  code : Plain dirty.2.1 ∧ dirty.2.1.toList.length = 2
  missing : dirty.2.2 = none → hasStat dirty.1 dirty.2.1 = false
  zero : dirty.2.2 = some ⟨0, 0⟩ → hasStat dirty.1 dirty.2.1 = true

/-- Branch, origin and head are single lines, and none of them is an empty text; the counts are
those of the dirty paths. -/
structure PlainStatus (hasStat : String → String → Bool) (status : GitStatus) : Prop where
  texts : ∀ text ∈ [status.branch, status.originUrl, status.lastCommit],
    text ≠ some "" ∧ Plain (text.getD "")
  paths : ∀ dirty ∈ status.dirty, PlainPath hasStat dirty
  uncommitted : status.uncommittedCount = status.dirty.length
  untracked : status.untrackedCount = status.dirty.countP fun dirty => dirty.2.1 = "??"

/-- Each status is plain, and a repository is renamed or deleted when it has no dirty paths or no
fingerprint. -/
def InOrder (hasStat : String → String → Bool) (s : State) : Act → Prop
  | .reconcile _ status => PlainStatus hasStat status
  | .rename name _ _ | .markDeleted name _ =>
      ∀ row, s.repos name = some row → row.dirtyFingerprint = none ∨ s.dirtyPaths name = ∅
  | .sync _ | .upsert _ _ => True

variable {hasStat : String → String → Bool} {s t : State} {a : Act} {name : String}
  {status status' : GitStatus} {row : RepoRow}

/-! ## The fingerprint is injective -/

theorem append_last_inj {α : Type} {mark : α} {xs ys front back : List α} (hxs : mark ∉ xs)
    (hys : mark ∉ ys) (h : front ++ [mark] ++ xs = back ++ [mark] ++ ys) :
      front = back ∧ xs = ys := by
  rw [List.append_assoc, List.append_assoc] at h
  rcases List.append_eq_append_iff.mp h with ⟨inner, hback, hxs'⟩ | ⟨inner, hfront, hys'⟩
  · cases inner with
    | nil => exact ⟨by simpa using hback.symm, (List.cons.inj hxs').2⟩
    | cons b inner =>
        have htail : xs = inner ++ ([mark] ++ ys) := (List.cons.inj hxs').2
        exact absurd (by rw [htail]; simp) hxs
  · cases inner with
    | nil => exact ⟨by simpa using hfront, (List.cons.inj hys').2.symm⟩
    | cons b inner =>
        have htail : ys = inner ++ ([mark] ++ xs) := (List.cons.inj hys').2
        exact absurd (by rw [htail]; simp) hys

theorem colon_notMem_toString (n : Nat) : ':' ∉ (toString n).toList := by
  rw [Nat.toString_eq_repr, Nat.toList_repr]
  intro hmem
  have hdigit := Nat.isDigit_of_mem_toDigits (by decide) (by decide) hmem
  revert hdigit
  decide

theorem dirtyEntry_inj {path path' code code' : String} {a b a' b' : Nat}
    (hcode : code.toList.length = 2) (hcode' : code'.toList.length = 2)
    (h : dirtyEntry path code a b = dirtyEntry path' code' a' b') :
    path = path' ∧ code = code' ∧ a = a' ∧ b = b' := by
  have hcolon : ":".toList = [':'] := rfl
  have hlist := congrArg String.toList h
  simp only [dirtyEntry, String.toList_append, hcolon] at hlist
  -- the numbers are read from the end, and the code has two characters
  obtain ⟨hfront, hb⟩ :=
    append_last_inj (colon_notMem_toString b) (colon_notMem_toString b') hlist
  obtain ⟨hfront, ha⟩ :=
    append_last_inj (colon_notMem_toString a) (colon_notMem_toString a') hfront
  obtain ⟨hpath, hcodes⟩ := List.append_inj' hfront (hcode.trans hcode'.symm)
  refine ⟨String.toList_injective (List.append_inj_left' hpath rfl),
    String.toList_injective hcodes, ?_, ?_⟩
  · exact Nat.repr_injective (String.toList_injective ha)
  · exact Nat.repr_injective (String.toList_injective hb)

theorem dirtyPart_inj {x y : String × String × Option DiffStat} (hx : PlainPath hasStat x)
    (hy : PlainPath hasStat y) (h : dirtyPart x = dirtyPart y) : x = y := by
  obtain ⟨path, code, stat⟩ := x
  obtain ⟨path', code', stat'⟩ := y
  obtain ⟨rfl, rfl, hadditions, hdeletions⟩ := dirtyEntry_inj hx.code.2 hy.code.2 h
  have hstat : stat = stat' := by
    cases stat with
    | none =>
        cases stat' with
        | none => rfl
        | some diff =>
            have hzero : diff = ⟨0, 0⟩ := by
              cases diff
              simp only [Option.elim_none, Option.elim_some] at hadditions hdeletions
              rw [← hadditions, ← hdeletions]
            have hmissing := hx.missing rfl
            rw [hy.zero (by rw [hzero])] at hmissing
            cases hmissing
    | some diff =>
        cases stat' with
        | none =>
            have hzero : diff = ⟨0, 0⟩ := by
              cases diff
              simp only [Option.elim_none, Option.elim_some] at hadditions hdeletions
              rw [hadditions, hdeletions]
            have hmissing := hy.missing rfl
            rw [hx.zero (by rw [hzero])] at hmissing
            cases hmissing
        | some diff' =>
            cases diff
            cases diff'
            simp only [Option.elim_some] at hadditions hdeletions
            rw [hadditions, hdeletions]
  rw [hstat]

theorem map_inj_of_forall {α β : Type} {f : α → β} {P : α → Prop} {xs ys : List α}
    (hf : ∀ x y, P x → P y → f x = f y → x = y) (hxs : ∀ x ∈ xs, P x) (hys : ∀ y ∈ ys, P y)
    (h : xs.map f = ys.map f) : xs = ys := by
  induction xs generalizing ys with
  | nil => exact (List.map_eq_nil_iff.mp h.symm).symm
  | cons x xs ih =>
      cases ys with
      | nil => cases h
      | cons y ys =>
          obtain ⟨hhead, htail⟩ := List.cons.inj h
          rw [hf x y (hxs x List.mem_cons_self) (hys y List.mem_cons_self) hhead,
            ih (fun x h => hxs x (List.mem_cons_of_mem _ h))
              (fun y h => hys y (List.mem_cons_of_mem _ h)) htail]

theorem plain_append {x y : String} : Plain (x ++ y) ↔ Plain x ∧ Plain y := by
  simp [Plain, String.toList_append]

theorem plain_dirtyPart {dirty : String × String × Option DiffStat} (h : PlainPath hasStat dirty) :
    Plain (dirtyPart dirty) := by
  have hcolon : Plain ":" := by decide
  simp only [dirtyPart, dirtyEntry, plain_append]
  exact ⟨⟨⟨⟨⟨⟨h.path, hcolon⟩, h.code.1⟩, hcolon⟩, SignedPayloads.natText_plain _⟩, hcolon⟩,
    SignedPayloads.natText_plain _⟩

/-- The parts of the fingerprint of a plain status are its lines. -/
theorem lines_statusFingerprint (h : PlainStatus hasStat status) :
    lines (statusFingerprint status) =
      ["branch=" ++ status.branch.getD "", "origin=" ++ status.originUrl.getD "",
        "head=" ++ status.lastCommit.getD ""] ++ status.dirty.map dirtyPart := by
  rw [statusFingerprint, lines_unlines _ (by simp)]
  have hplain : ∀ part ∈ ["branch=" ++ status.branch.getD "",
      "origin=" ++ status.originUrl.getD "", "head=" ++ status.lastCommit.getD ""] ++
        status.dirty.map dirtyPart, lines part = [part] := by
    intro part hpart
    refine lines_of_plain ?_
    rcases List.mem_append.mp hpart with hhead | hdirty
    · simp only [List.mem_cons, List.not_mem_nil, or_false] at hhead
      rcases hhead with rfl | rfl | rfl
      · exact plain_append.mpr ⟨by decide, (h.texts _ (by simp)).2⟩
      · exact plain_append.mpr ⟨by decide, (h.texts _ (by simp)).2⟩
      · exact plain_append.mpr ⟨by decide, (h.texts _ (by simp)).2⟩
    · obtain ⟨dirty, hmem, rfl⟩ := List.mem_map.mp hdirty
      exact plain_dirtyPart (h.paths dirty hmem)
  rw [List.flatMap_congr hplain, List.flatMap_singleton']

theorem text_inj {x y : Option String} {name : String} (hx : x ≠ some "") (hy : y ≠ some "")
    (h : name ++ x.getD "" = name ++ y.getD "") : x = y := by
  have htext : x.getD "" = y.getD "" := by
    have hlist := congrArg String.toList h
    rw [String.toList_append, String.toList_append] at hlist
    exact String.toList_injective (List.append_cancel_left hlist)
  cases x <;> cases y <;> simp_all

theorem rows_eq_of_dirty (h : status.dirty = status'.dirty) : status.rows = status'.rows := by
  have hrows : ∀ status : GitStatus, status.rows.toList = status.dirty.map fun dirty =>
      (dirty.1, ⟨dirty.2.1, dirty.2.2.map fun d => asI32 d.additions,
        dirty.2.2.map fun d => asI32 d.deletions⟩) := fun status => by
    rw [GitStatus.rows, Std.ExtTreeMap.toList_map, GitStatus.dirty, List.map_map]
    rfl
  exact Std.ExtTreeMap.ext_toList (by rw [hrows, hrows, h])

/-- **The fingerprint stands for all that is stored** of a plain status. -/
theorem fingerprint_inj (h : PlainStatus hasStat status) (h' : PlainStatus hasStat status')
    (hsame : statusFingerprint status = statusFingerprint status') {rows : Table String DirtyRow}
    (hshows : Shows row rows status) : Shows row rows status' := by
  have hlines := congrArg lines hsame
  rw [lines_statusFingerprint h, lines_statusFingerprint h'] at hlines
  obtain ⟨hhead, hdirty⟩ := List.append_inj hlines rfl
  have hdirty : status.dirty = status'.dirty :=
    map_inj_of_forall (fun x y hx hy => dirtyPart_inj hx hy) h.paths h'.paths hdirty
  simp only [List.cons.injEq, and_true] at hhead
  obtain ⟨hbranch, horigin, hcommit⟩ := hhead
  have htext := fun x hx => (h.texts x hx).1
  have htext' := fun x hx => (h'.texts x hx).1
  refine ⟨?_, ?_, ?_, ?_, ?_, hshows.dirtyPaths.trans (rows_eq_of_dirty hdirty)⟩
  · exact hshows.branch.trans (text_inj (htext _ (by simp)) (htext' _ (by simp)) hbranch)
  · exact hshows.originUrl.trans (text_inj (htext _ (by simp)) (htext' _ (by simp)) horigin)
  · exact hshows.headSha.trans (text_inj (htext _ (by simp)) (htext' _ (by simp)) hcommit)
  · rw [hshows.dirtyCount, h.uncommitted, h'.uncommitted, hdirty]
  · rw [hshows.untrackedCount, h.untracked, h'.untracked, hdirty]

/-! ## The writers keep it up -/

/-- A stored fingerprint is that of a plain status which the rows show. -/
def Kept (hasStat : String → String → Bool) (s : State) : Prop :=
  ∀ name row, s.repos name = some row → ∀ fingerprint, row.dirtyFingerprint = some fingerprint →
    ∃ status, PlainStatus hasStat status ∧ statusFingerprint status = fingerprint ∧
      Shows row (s.dirtyPaths name) status

/-- What the scan, an upsert and the lifecycle change of a row is not shown. -/
theorem Shows.moved {rows : Table String DirtyRow} (h : Shows row rows status) (path : String)
    (isPresent : Bool) : Shows { row with path := path, isPresent := isPresent } rows status :=
  { h with }

theorem Kept.upsertRepo (h : Kept hasStat s) (name path : String) :
    Kept hasStat (upsertRepo s name path) := by
  intro other row hrow fingerprint hfingerprint
  by_cases hother : other = name
  · subst hother
    simp only [RepoState.upsertRepo, Function.update_self, Option.some.injEq] at hrow
    split at hrow
    · rename_i old hold
      subst hrow
      obtain ⟨status, hplain, hstatus, hshows⟩ := h other old hold fingerprint hfingerprint
      exact ⟨status, hplain, hstatus, hshows.moved path true⟩
    · subst hrow
      cases hfingerprint
  · simp only [RepoState.upsertRepo, Function.update_of_ne hother] at hrow
    exact h other row hrow fingerprint hfingerprint

theorem Kept.syncReposOnce (h : Kept hasStat s) (repos : List (String × String)) :
    Kept hasStat (syncReposOnce s repos) := by
  have hscan : ∀ (found : List (String × String)) (s : State), Kept hasStat s →
      Kept hasStat (found.foldl syncRepo s) := by
    intro found
    induction found with
    | nil => exact fun s h => h
    | cons repo found ih =>
        refine fun s h => ih _ ?_
        rw [syncRepo]
        split
        · split
          · exact h.upsertRepo _ _
          · exact h
        · exact h.upsertRepo _ _
  refine hscan repos _ fun name row hrow fingerprint hfingerprint => ?_
  obtain ⟨old, hold, rfl⟩ := Option.map_eq_some_iff.mp hrow
  split at hfingerprint
  · rename_i hfound
    rw [if_pos hfound]
    exact h name old hold fingerprint hfingerprint
  · rename_i hgone
    rw [if_neg hgone]
    obtain ⟨status, hplain, hstatus, hshows⟩ := h name old hold fingerprint hfingerprint
    exact ⟨status, hplain, hstatus, hshows.moved old.path false⟩

/-- Where no dirty paths are deleted, or there is no fingerprint, the rows still show the status. -/
theorem Kept.emptied (h : Kept hasStat s) (hok : ∀ row, s.repos name = some row →
      row.dirtyFingerprint = none ∨ s.dirtyPaths name = ∅) (hrow : s.repos name = some row)
    {fingerprint : String} (hfingerprint : row.dirtyFingerprint = some fingerprint) (path : String)
    (isPresent : Bool) : ∃ status, PlainStatus hasStat status ∧
      statusFingerprint status = fingerprint ∧
      Shows { row with path := path, isPresent := isPresent } ∅ status := by
  obtain ⟨status, hplain, hstatus, hshows⟩ := h name row hrow fingerprint hfingerprint
  have hempty : s.dirtyPaths name = ∅ := (hok row hrow).resolve_left (by simp [hfingerprint])
  exact ⟨status, hplain, hstatus, hempty ▸ hshows.moved path isPresent⟩

theorem Kept.markDeleted (h : Kept hasStat s) {path : String}
    (hok : InOrder hasStat s (.markDeleted name path)) :
    Kept hasStat (markRepoDeletedRecords s name path) := by
  intro other row hrow fingerprint hfingerprint
  by_cases hother : other = name
  · subst hother
    simp only [markRepoDeletedRecords, Function.update_self] at hrow ⊢
    obtain ⟨old, hold, rfl⟩ := Option.map_eq_some_iff.mp hrow
    exact h.emptied hok hold hfingerprint path false
  · simp only [markRepoDeletedRecords, Function.update_of_ne hother] at hrow ⊢
    exact h other row hrow fingerprint hfingerprint

theorem rename_dirtyPaths (s : State) (oldName newName newPath : String) :
    (renameRepoRuntimeRecords s oldName newName newPath).dirtyPaths =
      Function.update (Function.update s.dirtyPaths oldName ∅) newName ∅ := by
  rw [renameRepoRuntimeRecords]
  split <;> rfl

/-- A row under another name has kept its dirty paths. -/
theorem Kept.renamed_other (h : Kept hasStat s) {oldName newName newPath other : String}
    (hnew : other ≠ newName) (hold : other ≠ oldName) (hrow : s.repos other = some row)
    {fingerprint : String} (hfingerprint : row.dirtyFingerprint = some fingerprint) :
    ∃ status, PlainStatus hasStat status ∧ statusFingerprint status = fingerprint ∧
      Shows row ((renameRepoRuntimeRecords s oldName newName newPath).dirtyPaths other) status := by
  rw [rename_dirtyPaths, Function.update_of_ne hnew, Function.update_of_ne hold]
  exact h other row hrow fingerprint hfingerprint

theorem Kept.rename (h : Kept hasStat s) {oldName newName newPath : String}
    (hok : InOrder hasStat s (.rename oldName newName newPath)) :
    Kept hasStat (renameRepoRuntimeRecords s oldName newName newPath) := by
  intro other row hrow fingerprint hfingerprint
  simp only [renameRepoRuntimeRecords] at hrow
  split at hrow
  · rename_i old hfound
    have hsame : oldName ≠ newName := by
      rintro rfl
      rw [Function.update_self] at hfound
      cases hfound
    rw [Function.update_of_ne hsame] at hfound
    by_cases hnew : other = newName
    · subst hnew
      simp only [Function.update_self, Option.some.injEq] at hrow
      subst hrow
      rw [rename_dirtyPaths, Function.update_self]
      exact h.emptied hok hfound hfingerprint newPath true
    · by_cases holdName : other = oldName
      · simp only [holdName, Function.update_of_ne hsame, Function.update_self] at hrow
        cases hrow
      · simp only [Function.update_of_ne hnew, Function.update_of_ne holdName] at hrow
        exact h.renamed_other hnew holdName hrow hfingerprint
  · rename_i hnone
    by_cases hnew : other = newName
    · simp only [hnew, Function.update_self, Option.some.injEq] at hrow
      subst hrow
      cases hfingerprint
    · simp only [Function.update_of_ne hnew] at hrow
      have holdName : other ≠ oldName := by
        rintro rfl
        rw [Function.update_of_ne hnew, hrow] at hnone
        cases hnone
      exact h.renamed_other hnew holdName hrow hfingerprint

theorem RepoRow.store_shows (row : RepoRow) (status : GitStatus) :
    Shows (row.store status) status.rows status := by
  constructor <;> simp only [RepoRow.store]

/-- A reconcile leaves rows that show its status, whether it writes them or not. -/
theorem Kept.shows (h : Kept hasStat s) (hplain : PlainStatus hasStat status)
    (hrow : s.repos name = some row) :
    ∃ now, (reconcileRepoInner s name row status).repos name = some now ∧
      Shows now ((reconcileRepoInner s name row status).dirtyPaths name) status := by
  rw [reconcileRepoInner]
  split
  · rename_i hunchanged
    obtain ⟨old, hold, hsame, hshows⟩ := h name row hrow _ hunchanged
    exact ⟨row, hrow, fingerprint_inj hold hplain hsame hshows⟩
  · refine ⟨row.store status, Function.update_self .., ?_⟩
    simp only [Function.update_self]
    exact row.store_shows status

theorem of_reconcile (hstep : step s (.reconcile name status) = some t) :
    ∃ row, s.repos name = some row ∧ t = reconcileRepoInner s name row status := by
  simp only [step] at hstep
  split at hstep
  · rename_i row hrow
    split at hstep <;> cases hstep
    exact ⟨row, hrow, rfl⟩
  · cases hstep

theorem kept_step : Preserved step (InOrder hasStat) (Kept hasStat) := by
  intro s a t h hok hstep
  cases a with
  | sync repos =>
      cases hstep
      exact h.syncReposOnce repos
  | upsert name path =>
      cases hstep
      exact h.upsertRepo name path
  | rename oldName newName newPath =>
      cases hstep
      exact h.rename hok
  | markDeleted name path =>
      cases hstep
      exact h.markDeleted hok
  | reconcile name status =>
      obtain ⟨row, hrow, rfl⟩ := of_reconcile hstep
      intro other now hnow fingerprint hfingerprint
      rw [reconcileRepoInner] at hnow ⊢
      split at hnow
      · rename_i hunchanged
        rw [if_pos hunchanged]
        exact h other now hnow fingerprint hfingerprint
      · rename_i hchanged
        rw [if_neg hchanged]
        by_cases hother : other = name
        · subst hother
          simp only [Function.update_self, Option.some.injEq] at hnow ⊢
          subst hnow
          exact ⟨status, hok, Option.some.inj hfingerprint, row.store_shows status⟩
        · simp only [Function.update_of_ne hother] at hnow ⊢
          exact h other now hnow fingerprint hfingerprint

/-- **An unchanged fingerprint hides nothing**, as long as the statuses are plain and no repository
is renamed or deleted that has a fingerprint and dirty paths: after each reconcile the rows are
those of the status it has read. -/
theorem reconcile_shows (hrun : Run step (InOrder hasStat) .empty s)
    (hok : InOrder hasStat s (.reconcile name status))
    (hstep : step s (.reconcile name status) = some t) :
    ∃ row, t.repos name = some row ∧ Shows row (t.dirtyPaths name) status := by
  have hkept : Kept hasStat s :=
    hrun.invariant kept_step fun name row hrow => by cases hrow
  obtain ⟨row, hrow, rfl⟩ := of_reconcile hstep
  exact hkept.shows hok hrow

section Examples

/-- One modified file. -/
def modified : GitStatus where
  branch := some "main"
  originUrl := none
  uncommittedCount := 1
  untrackedCount := 0
  lastCommit := some "9fceb02"
  dirtyByPath := (∅ : Table String String).insert "README.md" " M"
  diffStatsByPath := (∅ : Table String DiffStat).insert "README.md" ⟨2, 1⟩

def after (acts : List Act) : State := (runList step .empty acts).getD .empty

/-- A repository is deleted and is there again, with the same changes. -/
def recreated : List Act :=
  [.upsert "web" "/repos/web", .reconcile "web" modified, .markDeleted "web" "/repos/web",
    .upsert "web" "/repos/web"]

theorem plain_modified : PlainStatus (fun _ _ => true) modified := by
  have hdirty : modified.dirty = [("README.md", " M", some ⟨2, 1⟩)] := rfl
  refine ⟨by decide, fun dirty hmem => ?_, by rw [hdirty]; rfl, by rw [hdirty]; rfl⟩
  rw [hdirty, List.mem_singleton] at hmem
  subst hmem
  exact ⟨by decide, ⟨by decide, by decide⟩, fun h => (by cases h), fun _ => rfl⟩

theorem reconcile_shows_modified :
    ∃ row, (after [.upsert "web" "/repos/web", .reconcile "web" modified]).repos "web" = some row ∧
      Shows row ((after [.upsert "web" "/repos/web", .reconcile "web" modified]).dirtyPaths "web")
        modified := by
  have hupsert : InOrder (fun _ _ => true) .empty (.upsert "web" "/repos/web") := trivial
  exact reconcile_shows ((Run.refl State.empty).snoc hupsert rfl) plain_modified rfl

/-- The next reconcile takes the fast path and leaves the deleted rows away. -/
theorem recreated_hides_status :
    ∃ s, Run step anyStep .empty s ∧ step s (.reconcile "web" modified) = some s ∧
      ∀ row, ¬ Shows row (s.dirtyPaths "web") modified := by
  refine ⟨after recreated, Run.of_runList recreated rfl, rfl, fun row h => ?_⟩
  have hpaths := congrArg (·.toList) h.dirtyPaths
  have hnone : ((after recreated).dirtyPaths "web").toList = [] := rfl
  have hone : modified.rows.toList = [("README.md", ⟨" M", some 2, some 1⟩)] := rfl
  simp only [hnone, hone] at hpaths
  cases hpaths

end Examples

end Sulion.RepoState
