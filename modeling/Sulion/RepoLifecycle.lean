import Sulion.Archive.UsageReport
import Sulion.Lib.Renaming
import Sulion.Pty.Records

set_option autoImplicit false

/-! # Renaming a repository

`repo_lifecycle.rs`: the checks that decide whether a rename is allowed, the directory move, and the
records that have to follow it, beside the reports that read these records by the repository's name:
usage, the trace of a file, churn, file activity, plans, lexical and semantic search, deployments
and their collection checks. A purge is here too, for the names it writes into the digests of turns
and into the rollups.
-/

namespace Sulion.RepoLifecycle

open Archive Pty Usage

/-! ## The records -/

inductive PathEntry
  | missing
  | directory
  | other
  deriving DecidableEq

/-- A row of `claude_sessions` with its `agent_session_metadata.cwd`. -/
structure SessionRow extends ClaudeSession where
  agent : String
  cwd : Option String

/-- A row of `pty_sessions`. -/
structure PtyRow where
  repo : RepoName
  state : PtyState
  currentSessionUuid : Option Uuid
  label : Option String

/-- A row of `workspaces`; `isMain` is `kind = 'main'`, otherwise it is a worktree. -/
structure WorkspaceRow where
  repoName : String
  isMain : Bool
  deleted : Bool

/-- A row of `repo_runtime_state` with the rows of `dora_run_checks` that belong to it: their key
follows it on an update and they go with it on a delete. -/
structure RuntimeRow where
  repoName : RepoName
  path : String
  present : Bool
  /-- `source_key` and `production_source`. -/
  runChecks : List (String × Bool)

/-- The operation that a touch links to. -/
structure TouchOperation where
  operationType : Option String
  operationCategory : Option String
  pairId : String
  deriving DecidableEq

/-- A row of `timeline_file_touches`. -/
structure TouchRow where
  sessionUuid : Uuid
  turnId : Int
  touchOrd : Int
  repoName : String
  repoRelPath : String
  touchKind : String
  isWrite : Bool
  operation : Option TouchOperation

/-- An element of `timeline_turns.files_json`. -/
structure DigestFile where
  repo : String
  path : String
  kind : String
  write : Bool
  deriving DecidableEq

/-- A row of `timeline_turns`. -/
structure TurnRow where
  preview : String
  startTimestamp : Timestamp
  endTimestamp : Timestamp
  markdown : String
  filesJson : List DigestFile

/-- A row of `plans`. -/
structure PlanRow where
  id : Uuid
  repoName : String
  title : String
  summary : String
  isOpen : Bool
  revision : Nat
  updatedAt : Timestamp

/-- A row of `retrieval_embeddings`. -/
structure EmbeddingRow where
  sourceKey : String
  sessionUuid : Uuid
  repoName : Option String

/-- A row of `dora_deployments`. -/
structure DeploymentRow where
  id : Uuid
  repoName : String
  sourceKey : String
  revision : String
  deployedAt : Timestamp

structure RepoStore where
  /-- What the names in the repositories' directory are. -/
  entries : String → PathEntry
  claudeSessions : Table Uuid SessionRow
  ptySessions : Table Uuid PtyRow
  workspaces : List WorkspaceRow
  metaRepoMembers : List String
  repoRuntimeState : List RuntimeRow
  /-- Sessions whose `purged_at` is set. -/
  purged : Finset Uuid
  modelUsageDaily : Uuid → Table (Day × String) ModelDayRow
  usageRollup : Ledger Uuid UsageKey Tokens
  fileActivity : Ledger Uuid FileKey TurnCounts
  turns : Uuid → Table Int TurnRow
  touches : List TouchRow
  /-- The session and the text of the rows of `event_blocks`. -/
  blocks : List (Uuid × String)
  plans : List PlanRow
  embeddings : List EmbeddingRow
  deployments : List DeploymentRow

/-! ## The rename -/

/-- `is_valid_repo_name`. -/
def isValidRepoName (name : String) : Bool :=
  decide (name.toList ≠ []) && decide (name.toList.head? ≠ some '.') &&
    decide ('/' ∉ name.toList) && decide ('\\' ∉ name.toList) &&
    decide (¬ ['.', '.'] <:+: name.toList)

inductive RepoLifecycleError
  | notFound
  | badRequest (message : String)
  | internal
  | io
  deriving DecidableEq

/-- What the rename does not decide: where the repositories are, whether the directory can be moved,
whether the transaction of the records commits, and the time. -/
structure Surroundings where
  root : String
  moves : Bool
  commits : Bool
  now : Timestamp

/-- `root.join(name)`. -/
def pathOf (env : Surroundings) (name : RepoName) : String := env.root ++ "/" ++ name.name

/-- The `CASE` that moves a path below the repository. -/
def movedPath (oldPath newPath path : String) : String :=
  if path = oldPath then newPath
  else if path.toList.take (oldPath.length + 1) = oldPath.toList ++ ['/'] then
    newPath ++ String.ofList (path.toList.drop oldPath.length)
  else path

section Rename

variable (old new : RepoName) (oldPath newPath : String)

/-- The row of `repo_runtime_state` that the new name has afterwards. -/
def movedRuntimeRow (rows : List RuntimeRow) : RuntimeRow :=
  match rows.find? fun row => decide (row.repoName.name = old.name) with
  | some row => { row with repoName := new, path := newPath, present := true }
  | none => ⟨new, newPath, true, []⟩

/-- `rename_repo_runtime_records`, on `repo_runtime_state`. -/
def renameRuntimeRows (rows : List RuntimeRow) : List RuntimeRow :=
  (rows.filter fun row => row.repoName.name ≠ old.name ∧ row.repoName.name ≠ new.name) ++
    [movedRuntimeRow old new newPath rows]

/-- Two deployments would have one name and source key. -/
def deploymentsCollide (deployments : List DeploymentRow) : Bool :=
  deployments.any fun d => d.repoName = old.name &&
    deployments.any fun d' => d'.repoName = new.name && d'.sourceKey = d.sourceKey

def PtyRow.rename (row : PtyRow) : PtyRow :=
  { row with repo := if row.repo.name = old.name then new else row.repo }

def SessionRow.moveCwd (cs : SessionRow) : SessionRow :=
  { cs with cwd := cs.cwd.map (movedPath oldPath newPath) }

def TouchRow.rename (touch : TouchRow) : TouchRow :=
  { touch with repoName := renamed old.name new.name touch.repoName }

def PlanRow.rename (now : Timestamp) (plan : PlanRow) : PlanRow :=
  if plan.repoName = old.name then
    { plan with repoName := new.name, revision := plan.revision + 1, updatedAt := now }
  else plan

def EmbeddingRow.rename (e : EmbeddingRow) : EmbeddingRow :=
  { e with repoName := renamed (some old.name) (some new.name) e.repoName }

def DeploymentRow.rename (d : DeploymentRow) : DeploymentRow :=
  { d with repoName := renamed old.name new.name d.repoName }

def WorkspaceRow.rename (w : WorkspaceRow) : WorkspaceRow :=
  if w.isMain ∧ w.deleted = false then
    { w with repoName := renamed old.name new.name w.repoName }
  else w

/-- `rename_repo_records`; `none` when a unique key is violated. -/
def renameRepoRecords (now : Timestamp) (s : RepoStore) : Option RepoStore :=
  if deploymentsCollide old new s.deployments then none
  else
    some { s with
      claudeSessions := s.claudeSessions.map fun _ cs => cs.moveCwd oldPath newPath
      ptySessions := s.ptySessions.map fun _ row => row.rename old new
      workspaces := s.workspaces.map (WorkspaceRow.rename old new)
      metaRepoMembers := s.metaRepoMembers.map (renamed old.name new.name)
      repoRuntimeState := renameRuntimeRows old new newPath s.repoRuntimeState
      touches := s.touches.map (TouchRow.rename old new)
      plans := s.plans.map (PlanRow.rename old new now)
      embeddings := s.embeddings.map (EmbeddingRow.rename old new)
      deployments := s.deployments.map (DeploymentRow.rename old new) }

end Rename

/-- The sessions that `ensure_no_live_repo_sessions` counts. -/
def liveRepoSessions (s : RepoStore) (name : RepoName) : Nat :=
  ((Table.rows s.ptySessions).filter fun row =>
    row.repo.name = name.name && (row.state = .live || row.state = .orphaned)).length

/-- The workspaces that `ensure_no_active_repo_worktrees` counts. -/
def activeRepoWorktrees (s : RepoStore) (name : RepoName) : Nat :=
  (s.workspaces.filter fun w => w.repoName = name.name && !w.isMain && !w.deleted).length

/-- What `ensure_repo_name_available` asks. -/
def repoNameInUse (s : RepoStore) (name : RepoName) : Bool :=
  (Table.rows s.ptySessions).any (fun row => row.repo.name = name.name && row.state ≠ .deleted) ||
    s.workspaces.any (fun w => w.repoName = name.name && !w.deleted) ||
    s.repoRuntimeState.any (fun row => row.repoName.name = name.name && row.present) ||
    s.metaRepoMembers.any (· = name.name)

/-- `rename_repo_runtime`. A failure leaves the records as they were, and the directory is moved
back. -/
def renameRepoRuntime (env : Surroundings) (s : RepoStore) (old new : RepoName) :
    Except RepoLifecycleError (String × RepoStore) :=
  if ¬ isValidRepoName old.name then .error (.badRequest "invalid repo name")
  else if ¬ isValidRepoName new.name then .error (.badRequest "invalid repo name")
  else if s.entries old.name ≠ .directory then .error .notFound
  else if old.name = new.name then .ok (pathOf env old, s)
  else if 0 < liveRepoSessions s old then
    .error (.badRequest (s!"cannot rename repo with {liveRepoSessions s old} live or orphaned " ++
      "session(s)"))
  else if 0 < activeRepoWorktrees s old then
    .error (.badRequest (s!"cannot rename repo with {activeRepoWorktrees s old} active isolated " ++
      "workspace(s); delete them first"))
  else if repoNameInUse s new then
    .error (.badRequest s!"repo name is already in use: {new.name}")
  else if s.entries new.name ≠ .missing then
    .error (.badRequest s!"repo already exists: {pathOf env new}")
  else if ¬ env.moves then .error .io
  else
    match renameRepoRecords old new (pathOf env old) (pathOf env new) env.now s with
    | none => .error .internal
    | some t =>
        if env.commits then
          .ok (pathOf env new, { t with
            entries := Function.update (Function.update s.entries old.name .missing) new.name
              .directory })
        else .error .internal

/-! ## The purge of a session -/

/-- The rows of one session that the rollups are made of. -/
def sessionRows (s : RepoStore) (session : Uuid) : SessionRows where
  modelUsageDaily := s.modelUsageDaily session
  fileTouches := (s.touches.filter fun t => t.sessionUuid = session).map fun t =>
    ⟨t.turnId, t.repoName, t.repoRelPath, t.isWrite⟩
  turnEnds := (s.turns session).map fun _ turn => turn.endTimestamp

def rollupDb (s : RepoStore) : RollupDb := ⟨s.purged, sessionRows s, s.usageRollup, s.fileActivity⟩

/-- The tables that the usage report reads; what only a purge checks is left empty. -/
def usageStore (s : RepoStore) : UsageStore where
  rollups := rollupDb s
  claudeSessions := s.claudeSessions.map fun _ cs => cs.toClaudeSession
  ptySessions := s.ptySessions.map fun _ row =>
    ⟨row.repo, row.currentSessionUuid, decide (row.state = .live)⟩
  repoRuntimeState := s.repoRuntimeState.map fun row => ⟨row.repoName, row.path⟩
  eventCount := fun _ => 0
  projectionsBehind := []
  projectionCurrent := fun _ => true

/-- `fold_touches_into_digest`, for one turn. -/
def foldTouches (touches : List TouchRow) (turnId : Int) (turn : TurnRow) : TurnRow :=
  { turn with
    filesJson := ((touches.filter fun t => t.turnId = turnId).map fun t =>
      ⟨t.repoName, t.repoRelPath, t.touchKind, t.isWrite⟩).dedup }

/-- `purge_session`, once its checks have passed. -/
def purgeSession (limitOne : LimitOne RepoName) (s : RepoStore) (session : Uuid) :
    Option RepoStore :=
  let repo := attributedRepo limitOne (usageStore s) session
  (Archive.purgeSession (rollupDb s) session (repo.map RepoName.name)).map fun db =>
    { s with
      purged := db.purged
      modelUsageDaily := fun u => (db.rows u).modelUsageDaily
      usageRollup := db.usage
      fileActivity := db.files
      turns := Function.update s.turns session
        ((s.turns session).map (foldTouches (s.touches.filter fun t => t.sessionUuid = session)))
      touches := s.touches.filter fun t => t.sessionUuid ≠ session
      blocks := s.blocks.filter fun b => b.1 ≠ session
      embeddings := s.embeddings.filter fun e => e.sessionUuid ≠ session }

/-! ## The reports -/

/-- `RepoFileTraceTouch`. -/
structure RepoFileTraceTouch where
  ptySessionId : Option Uuid
  sessionUuid : Uuid
  sessionAgent : String
  sessionLabel : Option String
  sessionState : Option PtyState
  turnId : Int
  turnPreview : String
  turnTimestamp : Timestamp
  operation : Option TouchOperation
  touchKind : String
  isWrite : Bool
  touchOrd : Int
  deriving DecidableEq

/-- A row of `load_repo_file_trace` before its selection. -/
structure FileTouch where
  repoName : String
  repoRelPath : String
  endTimestamp : Timestamp
  row : RepoFileTraceTouch
  deriving DecidableEq

section Reports

variable (s : RepoStore)

/-- A touch of a turn, with its session and the session's PTY. -/
def fileTouch (session : Uuid) (cs : SessionRow) (turnId : Int) (turn : TurnRow)
    (file : DigestFile) (touchOrd : Int) (operation : Option TouchOperation) : FileTouch where
  repoName := file.repo
  repoRelPath := file.path
  endTimestamp := turn.endTimestamp
  row :=
    { ptySessionId := cs.ptySessionId
      sessionUuid := session
      sessionAgent := cs.agent
      sessionLabel := (cs.ptySessionId.bind fun id => s.ptySessions[id]?).bind PtyRow.label
      sessionState := (cs.ptySessionId.bind fun id => s.ptySessions[id]?).map PtyRow.state
      turnId := turnId
      turnPreview := turn.preview
      turnTimestamp := turn.startTimestamp
      operation := operation
      touchKind := file.kind
      isWrite := file.write
      touchOrd := touchOrd }

/-- The touches of live sessions. -/
def liveTouches : List FileTouch :=
  s.touches.filterMap fun t =>
    (s.turns t.sessionUuid)[t.turnId]?.bind fun turn =>
      s.claudeSessions[t.sessionUuid]?.map fun cs =>
        fileTouch s t.sessionUuid cs t.turnId turn
          ⟨t.repoName, t.repoRelPath, t.touchKind, t.isWrite⟩ t.touchOrd t.operation

/-- The touches folded into the digests of purged sessions. -/
def digestTouches : List FileTouch :=
  s.claudeSessions.toList.flatMap fun (session, cs) =>
    if session ∈ s.purged then
      (s.turns session).toList.flatMap fun (turnId, turn) =>
        turn.filesJson.map fun file => fileTouch s session cs turnId turn file 0 none
    else []

/-- `turn_timestamp DESC, turn_id DESC, touch_ord ASC`. -/
def traceOrder (a b : RepoFileTraceTouch) : Prop :=
  (compare (b.turnTimestamp, b.turnId, a.touchOrd) (a.turnTimestamp, a.turnId, b.touchOrd)).isLE

instance : DecidableRel traceOrder := fun _ _ => inferInstanceAs (Decidable (_ = true))

/-- `load_repo_file_trace`. -/
def loadRepoFileTrace (repo path : String) : List RepoFileTraceTouch :=
  (listing FileTouch.repoName FileTouch.row repo
    ((liveTouches s ++ digestTouches s).filter fun t => t.repoRelPath = path)).insertionSort
    traceOrder

/-- `ChurnHotspot`, without its repository. -/
structure ChurnHotspot where
  path : String
  writeTurns : Nat
  sessions : Nat
  lastWriteAt : Option Timestamp
  deriving DecidableEq

def churnMinTurns : Nat := 3

/-- The group of one repository and path. -/
def churnGroup (touches : List FileTouch) (path : String) : ChurnHotspot :=
  let here := touches.filter fun t => t.repoRelPath = path
  { path := path
    writeTurns := (here.map fun t => (t.row.sessionUuid, t.row.turnId)).dedup.length
    sessions := (here.map fun t => t.row.sessionUuid).dedup.length
    lastWriteAt := (here.map FileTouch.endTimestamp).max? }

/-- The hotspots of one repository among those of `churn_hotspots`, before the limit over all. -/
def churnHotspots (since : Timestamp) (repo : String) : List ChurnHotspot :=
  let touches := listing FileTouch.repoName (fun t => { t with repoName := "" }) repo
    ((liveTouches s).filter fun t => t.row.isWrite && decide (since ≤ t.endTimestamp))
  ((touches.map FileTouch.repoRelPath).dedup.map (churnGroup touches)).filter fun hotspot =>
    churnMinTurns ≤ hotspot.writeTurns

/-- The rows of `file_activity_daily` under a repository. -/
def fileActivityOf (repo : String) : List (String × Day × TurnCounts) :=
  listing (fun e : FileKey × TurnCounts => e.1.1) (fun e => (e.1.2.1, e.1.2.2, e.2)) repo
    s.fileActivity.rollup.toList

/-- A plan in a listing, but for the revision and the time of its last change. -/
structure ListedPlan where
  id : Uuid
  title : String
  summary : String
  isOpen : Bool
  deriving DecidableEq

/-- `plans::list_for_repo`; the order by the last change is left open. -/
def listForRepo (includeClosed : Bool) (repo : String) : List ListedPlan :=
  listing PlanRow.repoName (fun p => ⟨p.id, p.title, p.summary, p.isOpen⟩) repo
    (s.plans.filter fun p => includeClosed || p.isOpen)

def afterPrefix (start path : String) : Option String :=
  if path.toList.take start.length = start.toList then
    some (String.ofList ((path.toList.drop start.length).takeWhile (· ≠ '/')))
  else none

/-- The repository of a working directory. -/
def inferRepo (cwd : String) : Option String :=
  (afterPrefix "/home/sulion/repos/" cwd).or (afterPrefix "/home/sulion/workspaces/" cwd)

/-- The name of the PTY's repository. -/
def ptyRepoOf (cs : SessionRow) : Option String :=
  (cs.ptySessionId.bind fun id => s.ptySessions[id]?).map fun row => row.repo.name

/-- `COALESCE(ps.repo, …)`, by which a search selects a repository. -/
def scopeRepo (session : Uuid) : Option String :=
  s.claudeSessions[session]?.bind fun cs => (ptyRepoOf s cs).or (cs.cwd.bind inferRepo)

/-- What a lexical search goes through: blocks, and the digests of purged sessions. -/
def searchedTexts : List (Uuid × String) :=
  s.blocks ++ s.claudeSessions.toList.flatMap fun (session, _) =>
    if session ∈ s.purged then
      (s.turns session).toList.map fun (_, turn) => (session, turn.markdown)
    else []

/-- The hits of `lexical_search` with the scope of a repository, best first or not. -/
def lexicalSearch (finds : String → Bool) (repo : String) : List (Uuid × String) :=
  (searchedTexts s).filter fun text => finds text.2 && decide (scopeRepo s text.1 = some repo)

/-- The candidates of `semantic_search` with the scope of a repository. -/
def semanticSearch (repo : String) : List (String × Uuid) :=
  listing EmbeddingRow.repoName (fun e => (e.sourceKey, e.sessionUuid)) (some repo) s.embeddings

/-- `deployed_at DESC, id DESC`. -/
def deploymentOrder (a b : Uuid × String × String × Timestamp) : Prop :=
  (compare (b.2.2.2, b.1) (a.2.2.2, a.1)).isLE

instance : DecidableRel deploymentOrder := fun _ _ => inferInstanceAs (Decidable (_ = true))

def runtimeRow (repo : String) : Option RuntimeRow :=
  s.repoRuntimeState.find? fun row => decide (row.repoName.name = repo)

/-- `list_deployments` of a repository, all its pages. -/
def listDeployments (since now : Timestamp) (repo : String) :
    List (Uuid × String × String × Timestamp) :=
  if (runtimeRow s repo).any RuntimeRow.present then
    (listing DeploymentRow.repoName (fun d => (d.id, d.sourceKey, d.revision, d.deployedAt)) repo
      (s.deployments.filter fun d => since ≤ d.deployedAt && d.deployedAt ≤ now)).insertionSort
      deploymentOrder
  else []

/-- The rows of `dora_run_checks` of a repository. -/
def runChecksOf (repo : String) : List (String × Bool) :=
  ((runtimeRow s repo).map RuntimeRow.runChecks).getD []

/-- Everything that is reported under the name of a repository. -/
structure Reports where
  usage : Day → String → String → Option Tokens
  fileTrace : String → List RepoFileTraceTouch
  churn : Timestamp → List ChurnHotspot
  fileActivity : List (String × Day × TurnCounts)
  plans : Bool → List ListedPlan
  lexical : (String → Bool) → List (Uuid × String)
  semantic : List (String × Uuid)
  deployments : Timestamp → Timestamp → List (Uuid × String × String × Timestamp)
  runChecks : List (String × Bool)

/-- Nothing is reported. -/
def Reports.none : Reports where
  usage := fun _ _ _ => .none
  fileTrace := fun _ => []
  churn := fun _ => []
  fileActivity := []
  plans := fun _ => []
  lexical := fun _ => []
  semantic := []
  deployments := fun _ _ => []
  runChecks := []

def reports (limitOne : LimitOne RepoName) (repo : String) : Reports where
  usage := fun day agent model =>
    (usageReport limitOne (usageStore s))[(day, some repo, agent, model)]?
  fileTrace := loadRepoFileTrace s repo
  churn := fun since => churnHotspots s since repo
  fileActivity := fileActivityOf s repo
  plans := fun includeClosed => listForRepo s includeClosed repo
  lexical := fun finds => lexicalSearch s finds repo
  semantic := semanticSearch s repo
  deployments := fun since now => listDeployments s since now repo
  runChecks := runChecksOf s repo

end Reports

end Sulion.RepoLifecycle
