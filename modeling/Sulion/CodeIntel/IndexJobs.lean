import Sulion.CodeIntel.Refresh
import Sulion.Lib.Attempt

set_option autoImplicit false

/-! # The jobs of the indexer

A refresh marks the rows of `code_files` whose files it takes for changed, and an index pass reads
the files of the pending rows and replaces their facts. Each access to the file system and each
statement is a step. Before a step the files may change, and a step may fail. A lock keeps two jobs
from running at once.

`spoiled` is no part of the program. It records that a step failed, or a file changed, at a point
where the index does not notice it later.
-/

namespace Sulion.CodeIntel.CatchUp

open Attempt
open Refresh (Key relativePath DeletionScope)

/-! ## The files and the rows -/

structure File where
  content : List UInt8
  /-- In nanoseconds. -/
  mtime : Nat

/-- What there is at a path, links followed. -/
inductive Entry
  | regular (file : File)
  /-- A directory, and whatever else has metadata. -/
  | other (size mtime : Nat)

abbrev Disk := RelPath → Option Entry

def Disk.file (disk : Disk) (path : RelPath) : Option File :=
  match disk path with
  | some (.regular file) => some file
  | _ => none

/-- The size and the time of the last change, which the table keeps in microseconds. -/
abbrev Stamp := Nat × Option Nat

def File.stamp (file : File) : Stamp := (file.content.length, some (file.mtime / 1000))

/-- `fs::metadata`. -/
def Entry.stamp : Entry → Stamp
  | .regular file => file.stamp
  | .other size mtime => (size, some (mtime / 1000))

inductive ParseStatus
  | pending
  | parsed
  /-- `partial` -/
  | parsedInPart
  | failed
  | unsupported
  | deleted
  deriving DecidableEq

/-- A row of `code_files` with its rows of `code_symbols` and of `code_references`. -/
structure CodeFile (σ ρ : Type) where
  language : Option SourceLanguage
  stamp : Stamp
  parseStatus : ParseStatus
  indexerVersion : Nat
  deleted : Bool
  symbols : List σ
  references : List ρ

def INDEXER_VERSION : Nat := 2

/-- The rows of a root; `paths` has the path of each. -/
structure CodeFiles (σ ρ : Type) where
  row : Key → Option (CodeFile σ ρ)
  paths : List Key
  complete : ∀ key, (row key).isSome → key ∈ paths

namespace CodeFiles

variable {σ ρ : Type}

def empty : CodeFiles σ ρ where
  row _ := none
  paths := []
  complete := by simp

/-- Write the row at a path. -/
def alter (files : CodeFiles σ ρ) (key : Key)
    (f : Option (CodeFile σ ρ) → Option (CodeFile σ ρ)) : CodeFiles σ ρ where
  row := Function.update files.row key (f (files.row key))
  paths := key :: files.paths
  complete := by
    intro k hk
    by_cases h : k = key
    · simp [h]
    · rw [Function.update_of_ne h] at hk
      exact List.mem_cons_of_mem _ (files.complete k hk)

/-- The paths whose rows the condition selects. -/
def select (files : CodeFiles σ ρ) (condition : CodeFile σ ρ → Bool) : List Key :=
  files.paths.dedup.filter fun key => (files.row key).any condition

end CodeFiles

/-- What happens right before a step, and whether the step fails. -/
structure Event where
  disk : Disk
  fails : Bool

structure State (σ ρ : Type) where
  disk : Disk
  files : CodeFiles σ ρ
  events : List Event
  spoiled : Bool

/-- A state after a statement that writes the row at a path. -/
def State.alter {σ ρ : Type} (s : State σ ρ) (key : Key)
    (f : Option (CodeFile σ ρ) → Option (CodeFile σ ρ)) : State σ ρ :=
  { s with files := s.files.alter key f }

/-- The parser and the extraction, and the largest file that is indexed. -/
structure Indexer (σ ρ : Type) where
  maxFileBytes : Nat
  hasError : SourceLanguage → String → Bool
  extractSymbols : SourceLanguage → Key → String → List σ
  extractReferences : SourceLanguage → Key → String → List ρ

variable {σ ρ : Type}

/-! ## Steps -/

/-- One step. Without events it goes well, and nothing changes before it. -/
def step : Attempt (State σ ρ) Unit := fun s =>
  match s.events with
  | [] => (.ok (), s)
  | e :: rest =>
      (if e.fails then .error () else .ok (), { s with disk := e.disk, events := rest })

/-- A statement that writes the row at a path. -/
def statement (key : Key) (f : Option (CodeFile σ ρ) → Option (CodeFile σ ρ)) :
    Attempt (State σ ρ) Unit := do
  step
  change fun s => s.alter key f

/-- `fs::metadata`. -/
def metadata (path : RelPath) : Attempt (State σ ρ) Entry := do
  step
  let entry ← look fun s => s.disk path
  match entry with
  | some entry => pure entry
  | none => Attempt.fail

/-- `fs::read`. -/
def read (path : RelPath) : Attempt (State σ ρ) (List UInt8) := do
  step
  let file ← look fun s => s.disk.file path
  match file with
  | some file => pure file.content
  | none => Attempt.fail

/-- `Path::is_file`, which takes a failure for a no. -/
def isFile (path : RelPath) : Attempt (State σ ρ) Bool :=
  (do
    step
    look fun s => (s.disk.file path).isSome).rescue (pure false)

/-- `read_to_string`, from the bytes. -/
def textOf (content : List UInt8) : Option String := String.fromUTF8? ⟨content.toArray⟩

/-- `root.path.join`. -/
def join (key : Key) : RelPath := key.splitOn '/'

/-- A path that begins with a slash does not stay below the root when it is joined. -/
def inRoot (path : RelPath) : Bool := path.head? ≠ some []

/-! ## Discovery -/

structure SourceFileCandidate where
  path : RelPath
  language : SourceLanguage
  sizeBytes : Nat

/-- `source_file_candidate`. -/
def candidateAt (x : Indexer σ ρ) (path : RelPath) :
    Attempt (State σ ρ) (Option SourceFileCandidate) :=
  match SourceLanguage.fromPath path with
  | none => pure none
  | some language => do
      match ← metadata path with
      | .other _ _ => pure none
      | .regular file =>
          if x.maxFileBytes < file.content.length then pure none
          else do
            let probed ← read path
            if looksBinary probed then pure none
            else pure (some ⟨path, language, file.content.length⟩)

/-- `source_file_candidate_in_root`. -/
def candidateInRoot (x : Indexer σ ρ) (path : RelPath) :
    Attempt (State σ ρ) (Option SourceFileCandidate) :=
  if inRoot path then
    if isIgnoredPathInRoot path then pure none else candidateAt x path
  else Attempt.fail

/-- An entry of a walk, which goes into no ignored directory. -/
def entryAt (x : Indexer σ ρ) (path : RelPath) :
    Attempt (State σ ρ) (Option SourceFileCandidate) := do
  step
  let present ← look fun s => (s.disk.file path).isSome
  if present && !isIgnoredPathInRoot path then candidateAt x path else pure none

/-- The candidates among the paths that a walk comes to. -/
def discover (x : Indexer σ ρ) : List RelPath → Attempt (State σ ρ) (List SourceFileCandidate)
  | [] => pure []
  | path :: rest => do
      let candidate ← entryAt x path
      let candidates ← discover x rest
      pure (candidate.toList ++ candidates)

/-! ## Storage -/

inductive DiscoveryMode
  | forcePending
  | detectChanges
  deriving DecidableEq

/-- The `WHERE` of the statement that marks a candidate; without a row it inserts one. -/
def marks (mode : DiscoveryMode) (language : SourceLanguage) (stamp : Stamp) :
    Option (CodeFile σ ρ) → Bool
  | none => true
  | some row =>
      mode = .forcePending || row.deleted || row.parseStatus = .unsupported ||
        row.language ≠ some language || row.stamp ≠ stamp || row.indexerVersion ≠ INDEXER_VERSION

/-- A row with these columns, that keeps the facts of the row there was. -/
def write (language : Option SourceLanguage) (stamp : Stamp) (parseStatus : ParseStatus)
    (old : Option (CodeFile σ ρ)) : CodeFile σ ρ where
  language := language
  stamp := stamp
  parseStatus := parseStatus
  indexerVersion := INDEXER_VERSION
  deleted := false
  symbols := old.elim [] (·.symbols)
  references := old.elim [] (·.references)

def markRow (mode : DiscoveryMode) (language : SourceLanguage) (stamp : Stamp)
    (old : Option (CodeFile σ ρ)) : Option (CodeFile σ ρ) :=
  if marks mode language stamp old then some (write (some language) stamp .pending old) else old

def markCandidatePending (mode : DiscoveryMode) (candidate : SourceFileCandidate) :
    Attempt (State σ ρ) Unit := do
  let entry ← metadata candidate.path
  statement (relativePath candidate.path)
    (markRow mode candidate.language (candidate.sizeBytes, entry.stamp.2))

def CodeFile.withoutReferences (row : CodeFile σ ρ) : CodeFile σ ρ := { row with references := [] }

def CodeFile.withoutSymbols (row : CodeFile σ ρ) : CodeFile σ ρ := { row with symbols := [] }

/-- The rows of `code_imports` go first. -/
def clearFileFacts (key : Key) : Attempt (State σ ρ) Unit := do
  step
  statement key (·.map CodeFile.withoutReferences)
  statement key (·.map CodeFile.withoutSymbols)

def CodeFile.gone (row : CodeFile σ ρ) : CodeFile σ ρ :=
  { row with parseStatus := .deleted, deleted := true }

def markFileDeleted (key : Key) : Attempt (State σ ρ) Unit := do
  clearFileFacts key
  statement key (·.map CodeFile.gone)

def CodeFile.setAside (row : CodeFile σ ρ) : CodeFile σ ρ :=
  { row with parseStatus := .unsupported, deleted := false }

def markFileUnsupported (key : Key) : Attempt (State σ ρ) Unit := do
  clearFileFacts key
  statement key (·.map CodeFile.setAside)

/-- The file at the path is what its row was marked for, and is not text. -/
def notText (key : Key) (s : State σ ρ) : Bool :=
  match s.disk.file (join key), s.files.row key with
  | some file, some row => row.stamp = file.stamp && (textOf file.content).isNone
  | _, _ => false

def spoil (s : State σ ρ) : State σ ρ := { s with spoiled := true }

/-- The first line only records whether the failure is one of the file itself. -/
def markFileFailed (key : Key) : Attempt (State σ ρ) Unit := do
  change fun s => if notText key s then s else spoil s
  step
  clearFileFacts key
  statement key fun old =>
    some (write (old.bind (·.language)) (old.elim (0, none) (·.stamp)) .failed old)

/-- A deletion that stops has cleared facts of a row that is not marked. -/
def deleteOrSpoil (key : Key) : Attempt (State σ ρ) Unit :=
  (markFileDeleted key).rescue do
    change spoil
    Attempt.fail

def markDeletedFiles (seenPaths : List Key) (scope : DeletionScope) :
    Attempt (State σ ρ) Unit := do
  step
  let rows ← look fun s => s.files.select fun row => !row.deleted
  each deleteOrSpoil (rows.filter fun key => scope.covers key && !seenPaths.contains key)

def upsertFile (key : Key) (language : SourceLanguage) (stamp : Stamp)
    (parseStatus : ParseStatus) : Attempt (State σ ρ) Unit :=
  statement key fun old => some (write (some language) stamp parseStatus old)

def CodeFile.addSymbol (symbol : σ) (row : CodeFile σ ρ) : CodeFile σ ρ :=
  { row with symbols := row.symbols ++ [symbol] }

def insertSymbol (key : Key) (symbol : σ) : Attempt (State σ ρ) Unit :=
  statement key (·.map (CodeFile.addSymbol symbol))

def CodeFile.addReference (reference : ρ) (row : CodeFile σ ρ) : CodeFile σ ρ :=
  { row with references := row.references ++ [reference] }

def insertReference (key : Key) (reference : ρ) : Attempt (State σ ρ) Unit :=
  statement key (·.map (CodeFile.addReference reference))

def replaceSymbols (key : Key) (symbols : List σ) (references : List ρ) :
    Attempt (State σ ρ) Unit := do
  clearFileFacts key
  each (insertSymbol key) symbols
  each (insertReference key) references

/-! ## Jobs -/

/-- A refresh of the root or of a path, whose walk comes to the paths `walked`. Its first step is
`upsert_root`, and its last sets `last_scan_at`. -/
def markDirty (x : Indexer σ ρ) (mode : DiscoveryMode) (scope : DeletionScope)
    (walked : List RelPath) : Attempt (State σ ρ) Unit := do
  step
  let candidates ← discover x walked
  each (markCandidatePending mode) candidates
  markDeletedFiles (candidates.map fun candidate => relativePath candidate.path) scope
  step

/-- The content is not that of the file with the metadata. -/
def torn (path : RelPath) (content : List UInt8) (s : State σ ρ) : Bool :=
  (s.disk.file path).all fun file => file.content ≠ content

def indexText (x : Indexer σ ρ) (key : Key) (language : SourceLanguage) (source : String)
    (stamp : Stamp) : Attempt (State σ ρ) Unit := do
  -- The parser.
  step
  upsertFile key language stamp (if x.hasError language source then .parsedInPart else .parsed)
  replaceSymbols key (x.extractSymbols language key source)
    (x.extractReferences language key source)

def indexPendingFile (x : Indexer σ ρ) (key : Key) : Attempt (State σ ρ) Unit := do
  let path := join key
  if ← isFile path then
    match ← candidateInRoot x path with
    | none => markFileUnsupported key
    | some candidate => do
        let content ← read path
        match textOf content with
        | none => Attempt.fail
        | some source => do
            let entry ← metadata path
            change fun s => if torn path content s then spoil s else s
            indexText x key candidate.language source entry.stamp
  else markFileDeleted key

def indexPendingFiles (x : Indexer σ ρ) (pending : List Key) : Attempt (State σ ρ) Unit :=
  each (fun key => (indexPendingFile x key).rescue (markFileFailed key)) pending

def isPending (row : CodeFile σ ρ) : Bool := !row.deleted && row.parseStatus = .pending

/-- `before` is the order of the rows by `updated_at`. -/
def loadPendingFiles (before : Key → Key → Bool) (limit : Int) :
    Attempt (State σ ρ) (List Key) := do
  step
  let pending ← look fun s => s.files.select isPending
  pure ((pending.insertionSort fun a b => before a b = true).take (max limit 1).toNat)

def indexPendingRoot (x : Indexer σ ρ) (before : Key → Key → Bool) (limit : Int) :
    Attempt (State σ ρ) Unit := do
  -- `upsert_root`.
  step
  let pending ← loadPendingFiles before limit
  if pending = [] then pure ()
  else do
    -- `start_job`, and after the files `finish_job`.
    step
    let result ← (indexPendingFiles x pending).outcome
    step
    ofOutcome result

/-- What runs between two acquisitions of the lock; `rest` lets the files change. -/
inductive Job
  | refresh (mode : DiscoveryMode) (scope : DeletionScope) (walked : List RelPath)
  | index (before : Key → Key → Bool) (limit : Int)
  | rest

def Job.run (x : Indexer σ ρ) : Job → Attempt (State σ ρ) Unit
  | .refresh mode scope walked => markDirty x mode scope walked
  | .index before limit => indexPendingRoot x before limit
  | .rest => step

/-- Jobs one after the other, whether they fail or not. -/
def runJobs (x : Indexer σ ρ) (jobs : List Job) (s : State σ ρ) : State σ ρ :=
  jobs.foldl (fun s job => (job.run x s).2) s

/-! ## Catching up -/

/-- What the extraction gives for a file; nothing for one that is not text. -/
def factsOf (x : Indexer σ ρ) (path : RelPath) (key : Key) (content : List UInt8) :
    List σ × List ρ :=
  match SourceLanguage.fromPath path, textOf content with
  | some language, some source =>
      (x.extractSymbols language key source, x.extractReferences language key source)
  | _, _ => ([], [])

def CodeFile.facts (row : CodeFile σ ρ) : List σ × List ρ := (row.symbols, row.references)

/-- The facts of the table for a path. -/
def CodeFiles.facts (files : CodeFiles σ ρ) (key : Key) : List σ × List ρ :=
  (files.row key).elim ([], []) CodeFile.facts

/-- The candidate that a file is. -/
def candidateOf (x : Indexer σ ρ) (path : RelPath) (file : File) : Option SourceFileCandidate :=
  if !isIgnoredPathInRoot path && sourceFileCandidate x.maxFileBytes path file.content then
    (SourceLanguage.fromPath path).map fun language => ⟨path, language, file.content.length⟩
  else none

/-- A walk to these paths discovers the file. -/
def Discovered (x : Indexer σ ρ) (walked : List RelPath) (disk : Disk) (path : RelPath)
    (file : File) :
    Prop :=
  path ∈ walked ∧ disk.file path = some file ∧ (candidateOf x path file).isSome

/-- The facts of the discovered files are those of their content, and there are no others. -/
structure CaughtUp (x : Indexer σ ρ) (walked : List RelPath) (s : State σ ρ) : Prop where
  discovered : ∀ path file, Discovered x walked s.disk path file →
    s.files.facts (relativePath path) = factsOf x path (relativePath path) file.content
  others : ∀ key, (∀ path file, Discovered x walked s.disk path file → relativePath path ≠ key) →
    s.files.facts key = ([], [])

/-- A refresh of the root and then index passes, until no row is pending. -/
structure Settles (x : Indexer σ ρ) (mode : DiscoveryMode) (walked : List RelPath)
    (s t : State σ ρ) : Prop where
  jobs : ∃ passes : List ((Key → Key → Bool) × Int),
    t = runJobs x (.refresh mode .root walked :: passes.map fun pass => .index pass.1 pass.2) s
  done : ∀ key row, t.files.row key = some row → isPending row = false

/-- What an index pass leaves at a pending row. -/
def given (x : Indexer σ ρ) (disk : Disk) (key : Key) : List σ × List ρ :=
  match disk.file (join key) with
  | some file =>
      if inRoot (join key) && (candidateOf x (join key) file).isSome then
        factsOf x (join key) key file.content
      else ([], [])
  | none => ([], [])

/-- A row that the refresh marks, or finds pending. -/
def Marked (x : Indexer σ ρ) (mode : DiscoveryMode) (walked : List RelPath) (s : State σ ρ)
    (key : Key) : Prop :=
  (s.files.row key).any isPending = true ∨
    ∃ path file language, Discovered x walked s.disk path file ∧ relativePath path = key ∧
      SourceLanguage.fromPath path = some language ∧
      marks mode language file.stamp (s.files.row key) = true

/-- Each discovered file is marked, and is what its row is read from, or has its facts already. -/
def Recoverable (x : Indexer σ ρ) (mode : DiscoveryMode) (walked : List RelPath) (s : State σ ρ) :
    Prop :=
  ∀ path file, Discovered x walked s.disk path file →
    (Marked x mode walked s (relativePath path) ∧
      given x s.disk (relativePath path) =
        factsOf x path (relativePath path) file.content) ∨
    (¬ Marked x mode walked s (relativePath path) ∧
      s.files.facts (relativePath path) = factsOf x path (relativePath path) file.content)

variable {x : Indexer σ ρ} {s t : State σ ρ} {key k : Key} {path : RelPath} {file : File}
  {f : Option (CodeFile σ ρ) → Option (CodeFile σ ρ)}

@[simp] theorem State.alter_row_self : (s.alter key f).files.row key = f (s.files.row key) :=
  Function.update_self ..

theorem State.alter_row_of_ne (h : k ≠ key) : (s.alter key f).files.row k = s.files.row k :=
  Function.update_of_ne h ..

theorem CodeFiles.mem_select {files : CodeFiles σ ρ} {condition : CodeFile σ ρ → Bool} :
    key ∈ files.select condition ↔ (files.row key).any condition = true := by
  rw [CodeFiles.select, List.mem_filter, List.mem_dedup]
  refine ⟨fun h => h.2, fun h => ⟨files.complete key ?_, h⟩⟩
  cases hrow : files.row key with
  | none => rw [hrow] at h; cases h
  | some row => rfl

end Sulion.CodeIntel.CatchUp
