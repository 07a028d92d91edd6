import Sulion.Lib.Checked
import Sulion.RepoLifecycle

set_option autoImplicit false

/-! # What a rename leaves behind

The records that a rename updates follow it. The usage rollup, the digests of purged turns and the
file activity keep the old name, a project hash names the path of before, and a working directory
says where the session was. `HistoryFollows` is what has to be so before the rename for every report
of the new name to be the report of the old one, with nothing left under the old name.
-/

namespace Sulion.RepoLifecycle

open Archive Pty Usage

/-! ## What the rename depends on -/

section Before

variable (limitOne : LimitOne RepoName) (s : RepoStore) (old new : RepoName)
  (oldPath newPath : String)

def moveName (repo : RepoName) : RepoName := if repo.name = old.name then new else repo

/-- The repositories that a project hash names, when the only path known for `new` is `newPath` and
none is known for `old`. -/
def hashNames (cs : ClaudeSession) : List RepoName :=
  ((s.repoRuntimeState.filter fun row =>
      row.repoName.name ≠ old.name ∧ row.repoName.name ≠ new.name ∧
        cs.projectHash == some (projectHashOf row.path)).map RuntimeRow.repoName) ++
    if cs.projectHash == some (projectHashOf newPath) then [new] else []

/-- Where a session's usage goes when the PTYs of `old` are those of `new`: its own PTY or that of
the lineage, a PTY that it is current in, or a repository of its project hash. -/
def attributedAfter (session : Uuid) : Option RepoName :=
  match (usageStore s).claudeSessions[session]? with
  | none => none
  | some cs =>
      let lineagePty := lineagePty (lineage (usageStore s).claudeSessions
        (lineageStart [(session, cs)]))
      let found := (leftJoin lineagePty fun lp => lp.origin = session).map fun lp =>
        let pDirect := (lp.bind LineageRow.ptySessionId).bind fun id => s.ptySessions[id]?
        let pReverse := limitOne.pick <| ((Table.rows s.ptySessions).filter fun row =>
          row.currentSessionUuid == some session).map fun row => moveName old new row.repo
        ((pDirect.map fun row => moveName old new row.repo).or pReverse).or
          (limitOne.pick (hashNames s old new newPath cs))
      found.head?.join

/-- The usage of some of the sessions, in one group of the report. -/
def usageAt (sessions : Uuid → Bool) (day : Day) (agent model : String) : List Tokens :=
  (s.claudeSessions.toList.filter fun e => sessions e.1).flatMap fun e =>
    ((s.modelUsageDaily e.1).toList.filter fun row =>
      row.1.1 = day ∧ row.2.agent = agent ∧ row.1.2 = model).map fun row => row.2.usage.tokens

/-- The rollup rows of a repository, in one group of the report. -/
def rollupAt (repo : String) (day : Day) (agent model : String) : List Tokens :=
  (s.usageRollup.rollup.toList.filter fun e =>
    reportKeyOf e.1 = (day, some repo, agent, model)).map Prod.snd

def isOf (repo : RepoName) (attributed : Option RepoName) : Bool :=
  decide (attributed.map RepoName.name = some repo.name)

/-- The usage that goes from `old` to `new`. -/
def movedUsage : Day → String → String → List Tokens :=
  usageAt s fun u => isOf old (attributedRepo limitOne (usageStore s) u) &&
    isOf new (attributedAfter limitOne s old new newPath u)

/-- The usage of `old` that stays behind: only a project hash says that it is of `old`. -/
def leftUsage : Day → String → String → List Tokens :=
  usageAt s fun u => isOf old (attributedRepo limitOne (usageStore s) u) &&
    !isOf new (attributedAfter limitOne s old new newPath u)

/-- The usage that `new` has besides: its own from before, and what the new path's hash names. -/
def otherUsage (day : Day) (agent model : String) : List Tokens :=
  usageAt s (fun u => !isOf old (attributedRepo limitOne (usageStore s) u) &&
    isOf new (attributedAfter limitOne s old new newPath u)) day agent model ++
      rollupAt s new.name day agent model

/-- A search finds the session under the new name if and only if it found it under the old one. -/
def KeepsScope (cs : SessionRow) : Prop :=
  match ptyRepoOf s cs with
  | some repo => repo ≠ new.name
  | none =>
      ((cs.cwd.map (movedPath oldPath newPath)).bind inferRepo = some new.name ↔
          cs.cwd.bind inferRepo = some old.name) ∧
        (cs.cwd.map (movedPath oldPath newPath)).bind inferRepo ≠ some old.name

/-- **Nothing is in the way under the new name, and nothing stays under the old one.** -/
structure HistoryFollows : Prop where
  usageRollup : ∀ (key : UsageKey) (tokens : Tokens), s.usageRollup.rollup[key]? = some tokens →
    key.2.1 ≠ old.name
  /-- What stays behind and what `new` has besides make the same sums. -/
  usage : ∀ day agent model,
    sumOfGroup (movedUsage limitOne s old new newPath day agent model ++
        otherUsage limitOne s old new newPath day agent model)
      = sumOfGroup (movedUsage limitOne s old new newPath day agent model ++
        leftUsage limitOne s old new newPath day agent model)
  touches : ∀ t ∈ liveTouches s, t.repoName ≠ new.name
  digests : ∀ t ∈ digestTouches s, t.repoName ≠ old.name ∧ t.repoName ≠ new.name
  fileActivity : ∀ (key : FileKey) (counts : TurnCounts),
    s.fileActivity.rollup[key]? = some counts → key.1 ≠ old.name ∧ key.1 ≠ new.name
  plans : ∀ plan ∈ s.plans, plan.repoName ≠ new.name
  scopes : ∀ text ∈ searchedTexts s, ∀ cs, s.claudeSessions[text.1]? = some cs →
    KeepsScope s old new oldPath newPath cs
  embeddings : ∀ e ∈ s.embeddings, e.repoName ≠ some new.name
  deployments : ∀ d ∈ s.deployments, d.repoName ≠ new.name ∧
    (d.repoName = old.name → (runtimeRow s old.name).any RuntimeRow.present = true)

end Before

/-! ## What the rename changes -/

/-- The records after a rename. -/
structure Renamed (env : Surroundings) (old new : RepoName) (s t : RepoStore) : Prop where
  claudeSessions : t.claudeSessions
    = s.claudeSessions.map fun _ cs => cs.moveCwd (pathOf env old) (pathOf env new)
  ptySessions : t.ptySessions = s.ptySessions.map fun _ row => row.rename old new
  runtimeRows : t.repoRuntimeState = renameRuntimeRows old new (pathOf env new) s.repoRuntimeState
  touches : t.touches = s.touches.map (TouchRow.rename old new)
  plans : t.plans = s.plans.map (PlanRow.rename old new env.now)
  embeddings : t.embeddings = s.embeddings.map (EmbeddingRow.rename old new)
  deployments : t.deployments = s.deployments.map (DeploymentRow.rename old new)
  purged : t.purged = s.purged
  modelUsageDaily : t.modelUsageDaily = s.modelUsageDaily
  usageRollup : t.usageRollup = s.usageRollup
  fileActivity : t.fileActivity = s.fileActivity
  turns : t.turns = s.turns
  blocks : t.blocks = s.blocks

variable {limitOne : LimitOne RepoName} {env : Surroundings} {old new : RepoName} {s t : RepoStore}

/-- **An accepted rename.** -/
theorem renameRepoRuntime_ok {path : String} (hne : old.name ≠ new.name)
    (h : renameRepoRuntime env s old new = .ok (path, t)) : Renamed env old new s t := by
  have hrecords : ∃ u, renameRepoRecords old new (pathOf env old) (pathOf env new) env.now s
      = some u ∧ t = { u with
        entries := Function.update (Function.update s.entries old.name .missing) new.name
          .directory } := by
    unfold renameRepoRuntime at h
    obtain ⟨-, h⟩ := ok_of_guard h
    obtain ⟨-, h⟩ := ok_of_guard h
    obtain ⟨-, h⟩ := ok_of_guard h
    rw [if_neg hne] at h
    obtain ⟨-, h⟩ := ok_of_guard h
    obtain ⟨-, h⟩ := ok_of_guard h
    obtain ⟨-, h⟩ := ok_of_guard h
    obtain ⟨-, h⟩ := ok_of_guard h
    obtain ⟨-, h⟩ := ok_of_guard h
    split at h
    · cases h
    · rename_i u hu
      split at h
      · cases h
        exact ⟨u, hu, rfl⟩
      · cases h
  obtain ⟨u, hu, rfl⟩ := hrecords
  unfold renameRepoRecords at hu
  split at hu
  · cases hu
  · cases hu
    constructor <;> rfl

/-- The PTY of a session keeps its label and state. -/
theorem fileTouch_renamed (h : Renamed env old new s t) (session : Uuid) (cs : SessionRow)
    (turnId : Int) (turn : TurnRow) (file : DigestFile) (touchOrd : Int)
    (operation : Option TouchOperation) :
    fileTouch t session (cs.moveCwd (pathOf env old) (pathOf env new)) turnId turn file touchOrd
      operation = fileTouch s session cs turnId turn file touchOrd operation := by
  have hpty (id : Uuid) : t.ptySessions[id]? = s.ptySessions[id]?.map (PtyRow.rename old new) := by
    rw [h.ptySessions, Std.ExtTreeMap.getElem?_map]
  have hlabel : ((cs.ptySessionId.bind fun id => t.ptySessions[id]?).bind PtyRow.label)
      = (cs.ptySessionId.bind fun id => s.ptySessions[id]?).bind PtyRow.label := by
    cases cs.ptySessionId with
    | none => rfl
    | some id =>
        rw [Option.bind_some, Option.bind_some, hpty]
        cases s.ptySessions[id]? with
        | none => rfl
        | some row => rfl
  have hstate : ((cs.ptySessionId.bind fun id => t.ptySessions[id]?).map PtyRow.state)
      = (cs.ptySessionId.bind fun id => s.ptySessions[id]?).map PtyRow.state := by
    cases cs.ptySessionId with
    | none => rfl
    | some id =>
        rw [Option.bind_some, Option.bind_some, hpty]
        cases s.ptySessions[id]? with
        | none => rfl
        | some row => rfl
  simp only [fileTouch, SessionRow.moveCwd, hlabel, hstate]

def FileTouch.rename (old new : RepoName) (touch : FileTouch) : FileTouch :=
  { touch with repoName := renamed old.name new.name touch.repoName }

theorem liveTouches_renamed (h : Renamed env old new s t) :
    liveTouches t = (liveTouches s).map (FileTouch.rename old new) := by
  unfold liveTouches
  rw [h.touches, List.filterMap_map, List.map_filterMap]
  apply List.filterMap_congr
  intro touch _
  simp only [Function.comp_apply, TouchRow.rename, h.turns, h.claudeSessions,
    Std.ExtTreeMap.getElem?_map, Option.map_bind, Option.map_map]
  congr 1
  funext turn
  cases s.claudeSessions[touch.sessionUuid]? with
  | none => rfl
  | some cs =>
      simp only [Option.map_some, Function.comp_apply, fileTouch_renamed h]
      rfl

theorem toList_claudeSessions (h : Renamed env old new s t) :
    t.claudeSessions.toList = s.claudeSessions.toList.map fun e =>
      (e.1, e.2.moveCwd (pathOf env old) (pathOf env new)) := by
  rw [h.claudeSessions, Std.ExtTreeMap.toList_map]

theorem digestTouches_renamed (h : Renamed env old new s t) :
    digestTouches t = digestTouches s := by
  unfold digestTouches
  rw [toList_claudeSessions h, List.flatMap_map]
  apply List.flatMap_congr
  rintro ⟨session, cs⟩ -
  simp only [h.purged, h.turns, fileTouch_renamed h]

theorem searchedTexts_renamed (h : Renamed env old new s t) :
    searchedTexts t = searchedTexts s := by
  unfold searchedTexts
  rw [h.blocks, toList_claudeSessions h, List.flatMap_map]
  simp only [h.purged, h.turns]

/-! ## Reports of rows that follow -/

theorem fileTouch_rename_name (touch : FileTouch) :
    (touch.rename old new).repoName = renamed old.name new.name touch.repoName := rfl

theorem fileTrace_eq (h : Renamed env old new s t) (repo path : String) :
    loadRepoFileTrace t repo path
      = (listing FileTouch.repoName FileTouch.row repo
          (((liveTouches s).filter fun t => t.repoRelPath = path).map (FileTouch.rename old new) ++
            (digestTouches s).filter fun t => t.repoRelPath = path)).insertionSort traceOrder := by
  rw [loadRepoFileTrace, liveTouches_renamed h, digestTouches_renamed h, List.filter_append,
    List.filter_map]
  rfl

/-- **The trace of every file.** -/
theorem fileTrace_follows_iff (h : Renamed env old new s t) (hne : old.name ≠ new.name) :
    ((∀ path, loadRepoFileTrace t new.name path = loadRepoFileTrace s old.name path) ∧
      ∀ path, loadRepoFileTrace t old.name path = []) ↔
    (∀ touch ∈ liveTouches s, touch.repoName ≠ new.name) ∧
      ∀ touch ∈ digestTouches s, touch.repoName ≠ old.name ∧ touch.repoName ≠ new.name := by
  have hpath (path : String) :
      (loadRepoFileTrace t new.name path = loadRepoFileTrace s old.name path ∧
        loadRepoFileTrace t old.name path = []) ↔
      (∀ touch ∈ (liveTouches s).filter fun t => t.repoRelPath = path, touch.repoName ≠ new.name) ∧
        ∀ touch ∈ (digestTouches s).filter fun t => t.repoRelPath = path,
          touch.repoName ≠ old.name ∧ touch.repoName ≠ new.name := by
    rw [fileTrace_eq h, fileTrace_eq h, loadRepoFileTrace, List.filter_append]
    exact arranged_listing_follows_iff (fun rows => List.length_insertionSort _ rows) hne
      fileTouch_rename_name fun _ => rfl
  rw [← forall_and, forall_congr' hpath]
  constructor
  · intro hfollows
    constructor
    · intro touch htouch
      exact (hfollows touch.repoRelPath).1 touch (List.mem_filter.mpr ⟨htouch, by simp⟩)
    · intro touch htouch
      exact (hfollows touch.repoRelPath).2 touch (List.mem_filter.mpr ⟨htouch, by simp⟩)
  · rintro ⟨hlive, hdigest⟩ path
    constructor
    · intro touch htouch
      exact hlive touch (List.mem_of_mem_filter htouch)
    · intro touch htouch
      exact hdigest touch (List.mem_of_mem_filter htouch)

/-- **Churn**, whose touches are among those of the traces. -/
theorem churn_follows (h : Renamed env old new s t) (hne : old.name ≠ new.name)
    (hlive : ∀ touch ∈ liveTouches s, touch.repoName ≠ new.name) (since : Timestamp) :
    churnHotspots t since new.name = churnHotspots s since old.name ∧
      churnHotspots t since old.name = [] := by
  have hwrites : (liveTouches t).filter (fun t => t.row.isWrite && decide (since ≤ t.endTimestamp))
      = ((liveTouches s).filter fun t => t.row.isWrite && decide (since ≤ t.endTimestamp)).map
          (FileTouch.rename old new) := by
    rw [liveTouches_renamed h, List.filter_map]
    rfl
  set writes := (liveTouches s).filter fun t => t.row.isWrite && decide (since ≤ t.endTimestamp)
  let unnamed (touch : FileTouch) : FileTouch := { touch with repoName := "" }
  have hlisting : listing FileTouch.repoName unnamed new.name
        (writes.map (FileTouch.rename old new)) = listing FileTouch.repoName unnamed old.name
          writes ∧
      listing FileTouch.repoName unnamed old.name (writes.map (FileTouch.rename old new)) = [] := by
    apply (listing_moved_iff hne fileTouch_rename_name fun _ => rfl).mpr
    intro touch htouch
    exact hlive touch (List.mem_of_mem_filter htouch)
  unfold churnHotspots
  rw [hwrites, hlisting.1, hlisting.2]
  exact ⟨rfl, rfl⟩

/-- **Plans.** -/
theorem plans_follow_iff (h : Renamed env old new s t) (hne : old.name ≠ new.name) :
    ((∀ includeClosed, listForRepo t includeClosed new.name = listForRepo s includeClosed
      old.name) ∧
      ∀ includeClosed, listForRepo t includeClosed old.name = []) ↔
    ∀ plan ∈ s.plans, plan.repoName ≠ new.name := by
  have hname (p : PlanRow) : (p.rename old new env.now).repoName
      = renamed old.name new.name p.repoName := by
    unfold PlanRow.rename renamed
    split
    · rfl
    · rfl
  have hview (p : PlanRow) : (⟨(p.rename old new env.now).id, (p.rename old new env.now).title,
      (p.rename old new env.now).summary, (p.rename old new env.now).isOpen⟩ : ListedPlan)
        = ⟨p.id, p.title, p.summary, p.isOpen⟩ := by
    unfold PlanRow.rename
    split
    · rfl
    · rfl
  have hopen (p : PlanRow) : (p.rename old new env.now).isOpen = p.isOpen :=
    congrArg ListedPlan.isOpen (hview p)
  have hlisted (includeClosed : Bool) :
      (listForRepo t includeClosed new.name = listForRepo s includeClosed old.name ∧
        listForRepo t includeClosed old.name = []) ↔
      ∀ plan ∈ s.plans.filter fun p => includeClosed || p.isOpen, plan.repoName ≠ new.name := by
    have hplans : t.plans.filter (fun p => includeClosed || p.isOpen)
        = (s.plans.filter fun p => includeClosed || p.isOpen).map
            (PlanRow.rename old new env.now) := by
      rw [h.plans, List.filter_map]
      simp only [Function.comp_def, hopen]
    unfold listForRepo
    rw [hplans]
    exact listing_moved_iff hne hname hview
  rw [← forall_and, forall_congr' hlisted]
  constructor
  · intro hall plan hplan
    exact hall true plan (List.mem_filter.mpr ⟨hplan, rfl⟩)
  · intro hall includeClosed plan hplan
    exact hall plan (List.mem_of_mem_filter hplan)

/-- **Semantic search.** -/
theorem semantic_follows_iff (h : Renamed env old new s t) (hne : old.name ≠ new.name) :
    (semanticSearch t new.name = semanticSearch s old.name ∧ semanticSearch t old.name = []) ↔
    ∀ e ∈ s.embeddings, e.repoName ≠ some new.name := by
  have hne' : some old.name ≠ some new.name := fun heq => hne (Option.some.inj heq)
  have hname (e : EmbeddingRow) : (e.rename old new).repoName
      = renamed (some old.name) (some new.name) e.repoName := rfl
  have hview (e : EmbeddingRow) : ((e.rename old new).sourceKey, (e.rename old new).sessionUuid)
      = (e.sourceKey, e.sessionUuid) := rfl
  unfold semanticSearch
  rw [h.embeddings]
  exact listing_moved_iff hne' hname hview

/-- **File activity**, which does not follow. -/
theorem fileActivity_follows_iff (h : Renamed env old new s t) :
    (fileActivityOf t new.name = fileActivityOf s old.name ∧ fileActivityOf t old.name = []) ↔
    ∀ (key : FileKey) (counts : TurnCounts), s.fileActivity.rollup[key]? = some counts →
      key.1 ≠ old.name ∧ key.1 ≠ new.name := by
  have hkeys (repo : String) : fileActivityOf s repo = [] ↔
      ∀ (key : FileKey) (counts : TurnCounts), s.fileActivity.rollup[key]? = some counts →
        key.1 ≠ repo := by
    unfold fileActivityOf
    rw [listing_eq_nil_iff]
    constructor
    · intro hnone key counts hkey
      exact hnone (key, counts) (Std.ExtTreeMap.mem_toList_iff_getElem?_eq_some.mpr hkey)
    · rintro hnone ⟨key, counts⟩ hmem
      exact hnone key counts (Std.ExtTreeMap.mem_toList_iff_getElem?_eq_some.mp hmem)
  have hsame (repo : String) : fileActivityOf t repo = fileActivityOf s repo := by
    unfold fileActivityOf
    rw [h.fileActivity]
  rw [hsame, hsame]
  constructor
  · rintro ⟨hnew, hold⟩ key counts hkey
    rw [hold] at hnew
    exact ⟨(hkeys _).mp hold key counts hkey, (hkeys _).mp hnew key counts hkey⟩
  · intro hnone
    have hold := (hkeys old.name).mpr fun key counts hkey => (hnone key counts hkey).1
    have hnew := (hkeys new.name).mpr fun key counts hkey => (hnone key counts hkey).2
    exact ⟨hnew.trans hold.symm, hold⟩

/-! ## Deployments and their checks -/

theorem find?_of_forall_ne {rows : List RuntimeRow} {name : String}
    (h : ∀ row ∈ rows, row.repoName.name ≠ name) (more : List RuntimeRow) :
    (rows ++ more).find? (fun row => decide (row.repoName.name = name))
      = more.find? fun row => decide (row.repoName.name = name) := by
  rw [List.find?_append]
  have hnone : rows.find? (fun row => decide (row.repoName.name = name)) = none := by
    rw [List.find?_eq_none]
    intro row hrow
    simpa using h row hrow
  rw [hnone]
  rfl

theorem movedRuntimeRow_name (newPath : String) (rows : List RuntimeRow) :
    (movedRuntimeRow old new newPath rows).repoName = new := by
  unfold movedRuntimeRow
  split
  · rfl
  · rfl

theorem runtimeRow_new (h : Renamed env old new s t) :
    runtimeRow t new.name = some (movedRuntimeRow old new (pathOf env new) s.repoRuntimeState) := by
  rw [runtimeRow, h.runtimeRows, renameRuntimeRows, find?_of_forall_ne]
  · simp [movedRuntimeRow_name]
  · intro row hrow
    have hother := of_decide_eq_true (List.mem_filter.mp hrow).2
    exact hother.2

theorem runtimeRow_old (h : Renamed env old new s t) (hne : old.name ≠ new.name) :
    runtimeRow t old.name = none := by
  rw [runtimeRow, h.runtimeRows, renameRuntimeRows, find?_of_forall_ne]
  · simp [movedRuntimeRow_name, hne.symm]
  · intro row hrow
    have hother := of_decide_eq_true (List.mem_filter.mp hrow).2
    exact hother.1

/-- **Collection checks follow their repository**, whatever there was under the new name. -/
theorem runChecks_follow (h : Renamed env old new s t) (hne : old.name ≠ new.name) :
    runChecksOf t new.name = runChecksOf s old.name ∧ runChecksOf t old.name = [] := by
  unfold runChecksOf
  rw [runtimeRow_new h, runtimeRow_old h hne]
  refine ⟨?_, rfl⟩
  show (movedRuntimeRow old new (pathOf env new) s.repoRuntimeState).runChecks = _
  unfold movedRuntimeRow runtimeRow
  cases s.repoRuntimeState.find? fun row => decide (row.repoName.name = old.name) with
  | none => rfl
  | some row => rfl

theorem movedRuntimeRow_present (newPath : String) (rows : List RuntimeRow) :
    (movedRuntimeRow old new newPath rows).present = true := by
  unfold movedRuntimeRow
  split
  · rfl
  · rfl

/-- **Deployments**: those of a repository that was hidden come to light. -/
theorem deployments_follow_iff (h : Renamed env old new s t) (hne : old.name ≠ new.name) :
    ((∀ since now, listDeployments t since now new.name = listDeployments s since now old.name) ∧
      ∀ since now, listDeployments t since now old.name = []) ↔
    ∀ d ∈ s.deployments, d.repoName ≠ new.name ∧
      (d.repoName = old.name → (runtimeRow s old.name).any RuntimeRow.present = true) := by
  have hold (since now : Timestamp) : listDeployments t since now old.name = [] := by
    rw [listDeployments, runtimeRow_old h hne]
    rfl
  have hname (d : DeploymentRow) : (d.rename old new).repoName
      = renamed old.name new.name d.repoName := rfl
  let view (d : DeploymentRow) := (d.id, d.sourceKey, d.revision, d.deployedAt)
  have hview (d : DeploymentRow) : view (d.rename old new) = view d := rfl
  have hmoved (since now : Timestamp) :
      t.deployments.filter (fun d => since ≤ d.deployedAt && d.deployedAt ≤ now)
        = (s.deployments.filter fun d => since ≤ d.deployedAt && d.deployedAt ≤ now).map
            (DeploymentRow.rename old new) := by
    rw [h.deployments, List.filter_map]
    rfl
  have hnew (since now : Timestamp) : listDeployments t since now new.name
      = (listing DeploymentRow.repoName view new.name
          ((s.deployments.filter fun d => since ≤ d.deployedAt && d.deployedAt ≤ now).map
            (DeploymentRow.rename old new))).insertionSort deploymentOrder := by
    have hpresent : (runtimeRow t new.name).any RuntimeRow.present = true := by
      rw [runtimeRow_new h]
      exact movedRuntimeRow_present _ _
    rw [listDeployments, if_pos hpresent, hmoved]
  have hlength (rows : List (Uuid × String × String × Timestamp)) :
      (rows.insertionSort deploymentOrder).length = rows.length := List.length_insertionSort _ rows
  -- A window in which only the deployments of one time are seen.
  have hwindow {d : DeploymentRow} (hd : d ∈ s.deployments) : d ∈ s.deployments.filter fun d' =>
      d.deployedAt ≤ d'.deployedAt && d'.deployedAt ≤ d.deployedAt :=
    List.mem_filter.mpr ⟨hd, by simp⟩
  by_cases hpresent : (runtimeRow s old.name).any RuntimeRow.present = true
  · have hlisted (since now : Timestamp) :
        listDeployments t since now new.name = listDeployments s since now old.name ↔
          ∀ d ∈ s.deployments.filter fun d => since ≤ d.deployedAt && d.deployedAt ≤ now,
            d.repoName ≠ new.name := by
      rw [hnew, listDeployments, if_pos hpresent,
        ← arranged_listing_moved_iff hlength hne hname hview]
      refine (and_iff_left ?_).symm
      rw [listing_old_map_move hne hname]
      rfl
    constructor
    · rintro ⟨hlist, -⟩ d hd
      exact ⟨(hlisted _ _).mp (hlist d.deployedAt d.deployedAt) d (hwindow hd), fun _ => hpresent⟩
    · intro hall
      refine ⟨?_, hold⟩
      intro since now
      apply (hlisted since now).mpr
      intro d hd
      exact (hall d (List.mem_of_mem_filter hd)).1
  · have hhidden (since now : Timestamp) : listDeployments s since now old.name = [] := by
      rw [listDeployments, if_neg hpresent]
    constructor
    · rintro ⟨hlist, -⟩ d hd
      have hnone := congrArg List.length (hlist d.deployedAt d.deployedAt)
      rw [hnew, hhidden, hlength, List.length_nil, List.length_eq_zero_iff,
        listing_map_move hname hview, List.map_eq_nil_iff, List.filter_eq_nil_iff] at hnone
      have hneither := hnone d (hwindow hd)
      rw [decide_eq_true_iff, not_or] at hneither
      exact ⟨hneither.2, fun heq => absurd heq hneither.1⟩
    · intro hall
      refine ⟨?_, hold⟩
      intro since now
      have hnone : listing DeploymentRow.repoName view new.name
          ((s.deployments.filter fun d => since ≤ d.deployedAt && d.deployedAt ≤ now).map
            (DeploymentRow.rename old new)) = [] := by
        rw [listing_map_move hname hview, List.map_eq_nil_iff, List.filter_eq_nil_iff]
        intro d hd
        obtain ⟨hnot, hshown⟩ := hall d (List.mem_of_mem_filter hd)
        rw [decide_eq_true_iff, not_or]
        exact ⟨fun heq => hpresent (hshown heq), hnot⟩
      rw [hnew, hhidden, hnone]
      rfl

/-! ## Lexical search -/

theorem ptyRepoOf_renamed (h : Renamed env old new s t) (cs : SessionRow) (cwd : Option String) :
    ptyRepoOf t { cs with cwd := cwd } = (ptyRepoOf s cs).map (renamed old.name new.name) := by
  unfold ptyRepoOf
  cases cs.ptySessionId with
  | none => rfl
  | some id =>
      rw [Option.bind_some, Option.bind_some, h.ptySessions, Std.ExtTreeMap.getElem?_map]
      cases s.ptySessions[id]? with
      | none => rfl
      | some row =>
          rw [Option.map_some, Option.map_some, Option.map_some, Option.map_some, PtyRow.rename,
            renamed]
          split
          · rfl
          · rfl

theorem scopeRepo_renamed (h : Renamed env old new s t) (session : Uuid) :
    scopeRepo t session = s.claudeSessions[session]?.bind fun cs =>
      ((ptyRepoOf s cs).map (renamed old.name new.name)).or
        ((cs.cwd.map (movedPath (pathOf env old) (pathOf env new))).bind inferRepo) := by
  rw [scopeRepo, h.claudeSessions, Std.ExtTreeMap.getElem?_map]
  cases s.claudeSessions[session]? with
  | none => rfl
  | some cs =>
      rw [Option.map_some, Option.bind_some, Option.bind_some, SessionRow.moveCwd,
        ptyRepoOf_renamed h]

/-- A session is found under the new name as it was under the old one. -/
theorem keepsScope_iff (h : Renamed env old new s t) (hne : old.name ≠ new.name) {session : Uuid}
    {cs : SessionRow} (hcs : s.claudeSessions[session]? = some cs) :
    ((scopeRepo t session = some new.name ↔ scopeRepo s session = some old.name) ∧
      scopeRepo t session ≠ some old.name) ↔
    KeepsScope s old new (pathOf env old) (pathOf env new) cs := by
  rw [scopeRepo_renamed h, scopeRepo, hcs, Option.bind_some, Option.bind_some, KeepsScope]
  cases ptyRepoOf s cs with
  | none => rfl
  | some repo =>
      show ((some (renamed old.name new.name repo) = some new.name ↔ some repo = some old.name) ∧
        some (renamed old.name new.name repo) ≠ some old.name) ↔ repo ≠ new.name
      rw [Option.some.injEq, Option.some.injEq, renamed_eq_new_iff]
      constructor
      · rintro ⟨hiff, -⟩ heq
        exact hne ((hiff.mp (Or.inr heq)).symm.trans heq)
      · intro hnot
        refine ⟨⟨fun heither => heither.resolve_right hnot, Or.inl⟩, ?_⟩
        intro heq
        exact renamed_ne_old hne repo (Option.some.inj heq)

/-- **Lexical search.** -/
theorem lexical_follows_iff (h : Renamed env old new s t) (hne : old.name ≠ new.name) :
    ((∀ finds, lexicalSearch t finds new.name = lexicalSearch s finds old.name) ∧
      ∀ finds, lexicalSearch t finds old.name = []) ↔
    ∀ text ∈ searchedTexts s, ∀ cs, s.claudeSessions[text.1]? = some cs →
      KeepsScope s old new (pathOf env old) (pathOf env new) cs := by
  constructor
  · rintro ⟨hnew, hold⟩ text htext cs hcs
    apply (keepsScope_iff h hne hcs).mp
    have hmem (r : RepoStore) (repo : String) (htexts : searchedTexts r = searchedTexts s) :
        text ∈ lexicalSearch r (fun _ => true) repo ↔ scopeRepo r text.1 = some repo := by
      rw [lexicalSearch, htexts, List.mem_filter, Bool.true_and, decide_eq_true_iff]
      exact and_iff_right htext
    constructor
    · rw [← hmem t new.name (searchedTexts_renamed h), ← hmem s old.name rfl, hnew]
    · intro hscope
      have hfound := (hmem t old.name (searchedTexts_renamed h)).mpr hscope
      rw [hold] at hfound
      cases hfound
  · intro hscopes
    have hkeeps : ∀ text ∈ searchedTexts s,
        (scopeRepo t text.1 = some new.name ↔ scopeRepo s text.1 = some old.name) ∧
          scopeRepo t text.1 ≠ some old.name := by
      intro text htext
      cases hcs : s.claudeSessions[text.1]? with
      | none =>
          have hafter : scopeRepo t text.1 = none := by
            rw [scopeRepo_renamed h, hcs]
            rfl
          have hbefore : scopeRepo s text.1 = none := by
            rw [scopeRepo, hcs]
            rfl
          rw [hafter, hbefore]
          simp
      | some cs => exact (keepsScope_iff h hne hcs).mpr (hscopes text htext cs hcs)
    constructor
    · intro finds
      rw [lexicalSearch, lexicalSearch, searchedTexts_renamed h]
      apply List.filter_congr
      intro text htext
      simp only [(hkeeps text htext).1]
    · intro finds
      rw [lexicalSearch, searchedTexts_renamed h, List.filter_eq_nil_iff]
      intro text htext
      rw [Bool.and_eq_true, decide_eq_true_iff]
      exact fun hfound => (hkeeps text htext).2 hfound.2

/-! ## Usage -/

theorem attributedRepo_renamed (h : Renamed env old new s t) (session : Uuid) :
    attributedRepo limitOne (usageStore t) session
      = attributedAfter limitOne s old new (pathOf env new) session := by
  have hsessions : (usageStore t).claudeSessions = (usageStore s).claudeSessions := by
    apply Table.ext
    intro u
    show (t.claudeSessions.map _)[u]? = (s.claudeSessions.map _)[u]?
    rw [h.claudeSessions, Std.ExtTreeMap.getElem?_map, Std.ExtTreeMap.getElem?_map,
      Std.ExtTreeMap.getElem?_map, Option.map_map]
    rfl
  have hdirect (id : Uuid) : ((usageStore t).ptySessions[id]?).map PtySessionRow.repo
      = (s.ptySessions[id]?).map fun row => moveName old new row.repo := by
    show ((t.ptySessions.map _)[id]?).map _ = _
    rw [h.ptySessions, Std.ExtTreeMap.getElem?_map, Std.ExtTreeMap.getElem?_map, Option.map_map,
      Option.map_map]
    rfl
  have hreverse : pReverse limitOne (usageStore t) session
      = limitOne.pick (((Table.rows s.ptySessions).filter fun row =>
          row.currentSessionUuid == some session).map fun row => moveName old new row.repo) := by
    unfold pReverse
    congr 1
    show ((Table.rows (t.ptySessions.map _)).filter _).map _ = _
    rw [h.ptySessions]
    simp only [Table.rows, Std.ExtTreeMap.toList_map, List.map_map, List.filter_map]
    rfl
  have hhash (cs : ClaudeSession) : hashRepo limitOne (usageStore t) cs
      = limitOne.pick (hashNames s old new (pathOf env new) cs) := by
    unfold hashRepo hashNames
    congr 1
    show ((t.repoRuntimeState.map _).filter _).map _ = _
    have hmoved : (movedRuntimeRow old new (pathOf env new) s.repoRuntimeState).path
        = pathOf env new := by
      unfold movedRuntimeRow
      split
      · rfl
      · rfl
    rw [h.runtimeRows, renameRuntimeRows, List.filter_map, List.map_map, List.filter_append,
      List.filter_filter, List.map_append]
    congr 1
    · congr 1
      apply List.filter_congr
      intro row _
      simp only [Function.comp_apply, Bool.decide_and, Bool.and_comm, Bool.and_assoc,
        Bool.decide_eq_true]
    · by_cases hnew : (cs.projectHash == some (projectHashOf (pathOf env new))) = true
      · rw [if_pos hnew, List.filter_cons_of_pos]
        · simp [movedRuntimeRow_name]
        · simpa [hmoved] using hnew
      · rw [if_neg hnew, List.filter_cons_of_neg]
        · rfl
        · simpa [hmoved] using hnew
  unfold attributedRepo attributedAfter
  rw [hsessions]
  cases (usageStore s).claudeSessions[session]? with
  | none => rfl
  | some cs =>
      dsimp only
      rw [hreverse, hhash]
      congr 2
      apply List.map_congr_left
      intro lp _
      congr 2
      cases lp.bind LineageRow.ptySessionId with
      | none => rfl
      | some id => exact hdirect id

/-- Nothing is attributed to the old name any more. -/
theorem attributedAfter_ne_old (hne : old.name ≠ new.name) (newPath : String) (session : Uuid) :
    isOf old (attributedAfter limitOne s old new newPath session) = false := by
  have hmove (repo : RepoName) : (moveName old new repo).name ≠ old.name := by
    unfold moveName
    split
    · exact hne.symm
    · assumption
  have hall : ∀ repo, attributedAfter limitOne s old new newPath session = some repo →
      repo.name ≠ old.name := by
    intro repo hrepo
    unfold attributedAfter at hrepo
    split at hrepo
    · cases hrepo
    · rename_i cs hcs
      dsimp only at hrepo
      rw [Option.join_eq_some_iff] at hrepo
      obtain ⟨lp, -, hlp⟩ := List.mem_map.mp (List.mem_of_mem_head? hrepo)
      rcases Option.or_eq_some_iff.mp hlp with hpty | ⟨-, hhash⟩
      · rcases Option.or_eq_some_iff.mp hpty with hdirect | ⟨-, hreverse⟩
        · obtain ⟨row, -, rfl⟩ := Option.map_eq_some_iff.mp hdirect
          exact hmove _
        · obtain ⟨row, -, rfl⟩ := List.mem_map.mp (limitOne.mem_of_pick _ _ hreverse)
          exact hmove _
      · rcases List.mem_append.mp (limitOne.mem_of_pick _ _ hhash) with hother | hnew
        · obtain ⟨row, hrow, rfl⟩ := List.mem_map.mp hother
          exact (of_decide_eq_true (List.mem_filter.mp hrow).2).1
        · split at hnew
          · rw [List.mem_singleton.mp hnew]
            exact hne.symm
          · cases hnew
  unfold isOf
  rw [decide_eq_false_iff_not, Option.map_eq_some_iff]
  rintro ⟨repo, hrepo, hname⟩
  exact hall repo hrepo hname

/-- A group of the report: the sessions attributed to the repository and its rollup rows. -/
theorem usage_lookup (repo : RepoName) (day : Day) (agent model : String) :
    (usageReport limitOne (usageStore s))[(day, some repo.name, agent, model)]?
      = sumOfGroup (usageAt s (fun u => isOf repo (attributedRepo limitOne (usageStore s) u))
          day agent model ++ rollupAt s repo.name day agent model) := by
  rw [usageReport, lookup_groupSum, List.filter_append, List.map_append, live_eq]
  congr 2
  · show (((s.claudeSessions.map _).toList.flatMap _).filter _).map _ = _
    rw [Std.ExtTreeMap.toList_map, List.flatMap_map, List.filter_flatMap, List.map_flatMap, usageAt]
    have hselect (e : Uuid × SessionRow) : (((liveRows (usageStore s) e.1
          (attributedRepo limitOne (usageStore s) e.1)).filter fun row =>
            decide (row.1 = (day, some repo.name, agent, model))).map Prod.snd)
        = if isOf repo (attributedRepo limitOne (usageStore s) e.1) then
            ((s.modelUsageDaily e.1).toList.filter fun row =>
              row.1.1 = day ∧ row.2.agent = agent ∧ row.1.2 = model).map fun row =>
                row.2.usage.tokens
          else [] := by
      unfold liveRows
      rw [List.filter_map, List.map_map]
      by_cases hof : (attributedRepo limitOne (usageStore s) e.1).map RepoName.name = some repo.name
      · have hyes : isOf repo (attributedRepo limitOne (usageStore s) e.1) = true :=
          decide_eq_true hof
        rw [if_pos hyes, hof]
        show ((s.modelUsageDaily e.1).toList.filter _).map _ = _
        congr 1
        apply List.filter_congr
        intro row _
        simp [Prod.ext_iff]
      · have hnot : ¬ (isOf repo (attributedRepo limitOne (usageStore s) e.1) = true) := by
          simpa [isOf] using hof
        rw [if_neg hnot, List.map_eq_nil_iff, List.filter_eq_nil_iff]
        intro row _
        simp [Prod.ext_iff, hof]
    simp only [hselect]
    generalize s.claudeSessions.toList = sessions
    induction sessions with
    | nil => rfl
    | cons e sessions ih =>
        rw [List.flatMap_cons, ih]
        by_cases hof : isOf repo (attributedRepo limitOne (usageStore s) e.1) = true
        · rw [if_pos hof, List.filter_cons_of_pos (by simpa using hof), List.flatMap_cons]
        · rw [if_neg hof, List.filter_cons_of_neg (by simpa using hof), List.nil_append]
  · rw [archived, List.filter_map, List.map_map]
    rfl

/-- Sessions in two parts. -/
theorem usageAt_perm (p q : Uuid → Bool) (day : Day) (agent model : String) :
    (usageAt s p day agent model).Perm (usageAt s (fun u => q u && p u) day agent model ++
      usageAt s (fun u => !q u && p u) day agent model) := by
  unfold usageAt
  rw [← List.flatMap_append]
  apply List.Perm.flatMap_right
  have hsplit := (List.filter_append_perm (fun e : Uuid × SessionRow => q e.1)
    (s.claudeSessions.toList.filter fun e => p e.1)).symm
  rwa [List.filter_filter, List.filter_filter] at hsplit

theorem usage_renamed (h : Renamed env old new s t) (repo : RepoName) (day : Day)
    (agent model : String) :
    (usageReport limitOne (usageStore t))[(day, some repo.name, agent, model)]?
      = sumOfGroup (usageAt s (fun u => isOf repo (attributedAfter limitOne s old new
          (pathOf env new) u)) day agent model ++ rollupAt s repo.name day agent model) := by
  rw [usage_lookup]
  congr 2
  · unfold usageAt
    rw [toList_claudeSessions h, List.filter_map, List.flatMap_map, h.modelUsageDaily]
    simp only [Function.comp_def, attributedRepo_renamed h]
  · unfold rollupAt
    rw [h.usageRollup]

theorem rollupAt_eq_nil_iff (repo : RepoName) :
    (∀ day agent model, rollupAt s repo.name day agent model = []) ↔
    ∀ (key : UsageKey) (tokens : Tokens), s.usageRollup.rollup[key]? = some tokens →
      key.2.1 ≠ repo.name := by
  unfold rollupAt
  simp only [List.map_eq_nil_iff, List.filter_eq_nil_iff]
  constructor
  · rintro hnone ⟨day, name, agent, model⟩ tokens hkey rfl
    apply hnone day agent model _ (Std.ExtTreeMap.mem_toList_iff_getElem?_eq_some.mpr hkey)
    simp [reportKeyOf, repoOfRollup, repo.name_ne]
  · rintro hnone day agent model ⟨⟨day', name, agent', model'⟩, tokens⟩ hmem heq
    have hkey := Std.ExtTreeMap.mem_toList_iff_getElem?_eq_some.mp hmem
    have hname : repoOfRollup name = some repo.name :=
      congrArg (fun key : ReportKey => key.2.1) (of_decide_eq_true heq)
    unfold repoOfRollup at hname
    split at hname
    · cases hname
    · exact hnone _ _ hkey (Option.some.inj hname)

/-- **Usage**: the rollup keeps the name, and a project hash the path. -/
theorem usage_follows_iff (limitOne : LimitOne RepoName) (h : Renamed env old new s t)
    (hne : old.name ≠ new.name) :
    ((∀ (day : Day) (agent model : String),
        (usageReport limitOne (usageStore t))[(day, some new.name, agent, model)]?
        = (usageReport limitOne (usageStore s))[(day, some old.name, agent, model)]?) ∧
      ∀ (day : Day) (agent model : String),
        (usageReport limitOne (usageStore t))[(day, some old.name, agent, model)]? = none) ↔
    (∀ (key : UsageKey) (tokens : Tokens), s.usageRollup.rollup[key]? = some tokens →
        key.2.1 ≠ old.name) ∧
      ∀ day agent model,
        sumOfGroup (movedUsage limitOne s old new (pathOf env new) day agent model ++
            otherUsage limitOne s old new (pathOf env new) day agent model)
          = sumOfGroup (movedUsage limitOne s old new (pathOf env new) day agent model ++
            leftUsage limitOne s old new (pathOf env new) day agent model) := by
  have hleft : (∀ (day : Day) (agent model : String),
        (usageReport limitOne (usageStore t))[(day, some old.name, agent, model)]? = none) ↔
      ∀ (key : UsageKey) (tokens : Tokens), s.usageRollup.rollup[key]? = some tokens →
        key.2.1 ≠ old.name := by
    rw [← rollupAt_eq_nil_iff]
    have hgone (day : Day) (agent model : String) :
        usageAt s (fun u => isOf old (attributedAfter limitOne s old new (pathOf env new) u))
          day agent model = [] := by
      simp [usageAt, attributedAfter_ne_old hne]
    simp only [usage_renamed h, hgone, List.nil_append, sumOfGroup_eq_none_iff]
  have hafter (day : Day) (agent model : String) :
      (usageReport limitOne (usageStore t))[(day, some new.name, agent, model)]?
        = sumOfGroup (movedUsage limitOne s old new (pathOf env new) day agent model ++
            otherUsage limitOne s old new (pathOf env new) day agent model) := by
    rw [usage_renamed h, movedUsage, otherUsage, ← List.append_assoc]
    exact sumOfGroup_perm ((usageAt_perm _ _ day agent model).append_right _)
  have hbefore (hrollup : ∀ (key : UsageKey) (tokens : Tokens),
        s.usageRollup.rollup[key]? = some tokens → key.2.1 ≠ old.name) (day : Day)
      (agent model : String) :
      (usageReport limitOne (usageStore s))[(day, some old.name, agent, model)]?
        = sumOfGroup (movedUsage limitOne s old new (pathOf env new) day agent model ++
            leftUsage limitOne s old new (pathOf env new) day agent model) := by
    rw [usage_lookup, (rollupAt_eq_nil_iff old).mpr hrollup, List.append_nil, movedUsage, leftUsage]
    simp only [Bool.and_comm (isOf old _)]
    exact sumOfGroup_perm (usageAt_perm _ _ day agent model)
  rw [hleft]
  constructor
  · rintro ⟨hnew, hrollup⟩
    refine ⟨hrollup, ?_⟩
    intro day agent model
    rw [← hafter, hnew, hbefore hrollup]
  · rintro ⟨hrollup, husage⟩
    refine ⟨?_, hrollup⟩
    intro day agent model
    rw [hafter, husage, ← hbefore hrollup]

/-! ## Every report -/

/-- **When a rename carries the whole history**: every report of the new name is the report of the
old one before, and nothing is reported under the old name any more, exactly when the history
follows. -/
theorem rename_carries_history_iff (limitOne : LimitOne RepoName) {env : Surroundings}
    {old new : RepoName} {s t : RepoStore} {path : String} (hne : old.name ≠ new.name)
    (h : renameRepoRuntime env s old new = .ok (path, t)) :
    (reports t limitOne new.name = reports s limitOne old.name ∧
      reports t limitOne old.name = Reports.none) ↔
    HistoryFollows limitOne s old new (pathOf env old) (pathOf env new) := by
  have hr := renameRepoRuntime_ok hne h
  simp only [reports, Reports.none, Reports.mk.injEq, funext_iff]
  constructor
  · rintro ⟨⟨husage, htrace, -, hactivity, hplans, hlexical, hsemantic, hdeployments, -⟩,
      husage', htrace', -, hactivity', hplans', hlexical', hsemantic', hdeployments', -⟩
    obtain ⟨hrollup, hbalance⟩ := (usage_follows_iff limitOne hr hne).mp ⟨husage, husage'⟩
    obtain ⟨hlive, hdigests⟩ := (fileTrace_follows_iff hr hne).mp ⟨htrace, htrace'⟩
    exact
      { usageRollup := hrollup
        usage := hbalance
        touches := hlive
        digests := hdigests
        fileActivity := (fileActivity_follows_iff hr).mp ⟨hactivity, hactivity'⟩
        plans := (plans_follow_iff hr hne).mp ⟨hplans, hplans'⟩
        scopes := (lexical_follows_iff hr hne).mp ⟨hlexical, hlexical'⟩
        embeddings := (semantic_follows_iff hr hne).mp ⟨hsemantic, hsemantic'⟩
        deployments := (deployments_follow_iff hr hne).mp ⟨hdeployments, hdeployments'⟩ }
  · intro hfollows
    obtain ⟨husage, husage'⟩ :=
      (usage_follows_iff limitOne hr hne).mpr ⟨hfollows.usageRollup, hfollows.usage⟩
    obtain ⟨htrace, htrace'⟩ :=
      (fileTrace_follows_iff hr hne).mpr ⟨hfollows.touches, hfollows.digests⟩
    have hchurn := churn_follows hr hne hfollows.touches
    obtain ⟨hactivity, hactivity'⟩ := (fileActivity_follows_iff hr).mpr hfollows.fileActivity
    obtain ⟨hplans, hplans'⟩ := (plans_follow_iff hr hne).mpr hfollows.plans
    obtain ⟨hlexical, hlexical'⟩ := (lexical_follows_iff hr hne).mpr hfollows.scopes
    obtain ⟨hsemantic, hsemantic'⟩ := (semantic_follows_iff hr hne).mpr hfollows.embeddings
    obtain ⟨hdeployments, hdeployments'⟩ :=
      (deployments_follow_iff hr hne).mpr hfollows.deployments
    obtain ⟨hchecks, hchecks'⟩ := runChecks_follow hr hne
    exact ⟨⟨husage, htrace, fun since => (hchurn since).1, hactivity, hplans, hlexical, hsemantic,
        hdeployments, hchecks⟩,
      husage', htrace', fun since => (hchurn since).2, hactivity', hplans', hlexical', hsemantic',
      hdeployments', hchecks'⟩

/-! A dead PTY's session in `app`, with a turn that wrote `a.txt`. -/

def app : RepoName := ⟨"app", by decide⟩

def site : RepoName := ⟨"site", by decide⟩

def srv : Surroundings := ⟨"/srv", true, true, 50⟩

def appSession : SessionRow :=
  { ptySessionId := some 2
    parentSessionUuid := none
    projectHash := some "-srv-app"
    archivedAt := none
    archiveEvents := none
    agent := "claude-code"
    cwd := some "/srv/app" }

def appStore : RepoStore where
  entries := fun name => if name = "app" then .directory else .missing
  claudeSessions := (∅ : Table Uuid SessionRow).insert 1 appSession
  ptySessions := (∅ : Table Uuid PtyRow).insert 2 ⟨app, .dead, some 1, some "work"⟩
  workspaces := [⟨"app", true, false⟩]
  metaRepoMembers := []
  repoRuntimeState := [⟨app, "/srv/app", true, [("run:1", true)]⟩]
  purged := ∅
  modelUsageDaily := fun _ => ∅
  usageRollup := ⟨fun _ => ∅, ∅⟩
  fileActivity := ⟨fun _ => ∅, ∅⟩
  turns := fun _ => (∅ : Table Int TurnRow).insert 0 ⟨"write it", 10, 20, "write it", []⟩
  touches := [⟨1, 0, 0, "app", "a.txt", "write", true, none⟩]
  blocks := [(1, "write it")]
  plans := [⟨7, "app", "Ship", "", true, 1, 5⟩]
  embeddings := [⟨"block:1", 1, some "app"⟩]
  deployments := [⟨9, "app", "run:1", "abc", 30⟩]

theorem appStore_follows : HistoryFollows .first appStore app site "/srv/app" "/srv/site" where
  usageRollup := by
    intro key tokens hkey
    simp [appStore] at hkey
  usage := by
    intro day agent model
    have hother : otherUsage .first appStore app site "/srv/site" day agent model = [] := by
      simp [otherUsage, usageAt, rollupAt, appStore]
    have hleft : leftUsage .first appStore app site "/srv/site" day agent model = [] := by
      simp [leftUsage, usageAt, appStore]
    rw [hother, hleft]
  touches := by decide +kernel
  digests := by decide +kernel
  fileActivity := by
    intro key counts hkey
    simp [appStore] at hkey
  plans := by decide +kernel
  scopes := by
    have htexts : searchedTexts appStore = [(1, "write it")] := by decide +kernel
    intro text htext cs hcs
    have hpty : ptyRepoOf appStore appSession = some "app" := by decide +kernel
    rw [htexts, List.mem_singleton] at htext
    rw [htext, appStore, Table.lookup_insert_self, Option.some.injEq] at hcs
    rw [← hcs, KeepsScope, hpty]
    decide
  embeddings := by decide +kernel
  deployments := by decide +kernel

theorem rename_carries_history_iff_app :
    ∃ path t, renameRepoRuntime srv appStore app site = .ok (path, t) ∧
      reports t .first "site" = reports appStore .first "app" ∧
      reports t .first "app" = Reports.none := by
  have haccepted : (renameRepoRuntime srv appStore app site).toOption.isSome = true := by
    decide +kernel
  cases h : renameRepoRuntime srv appStore app site with
  | error e =>
      rw [h] at haccepted
      cases haccepted
  | ok r =>
      obtain ⟨path, t⟩ := r
      exact ⟨path, t, rfl, (rename_carries_history_iff .first (by decide) h).mpr appStore_follows⟩

/-- **A purged session stays behind**: its turn wrote `a.txt`, and after the rename the trace of the
file under the new name does not have it any more. -/
theorem rename_leaves_purged_history :
    ∃ s path t, purgeSession .first appStore 1 = some s ∧
      renameRepoRuntime srv s app site = .ok (path, t) ∧
      ¬ (reports t .first "site" = reports s .first "app" ∧
        reports t .first "app" = Reports.none) := by
  have hlost : ∃ s ∈ purgeSession .first appStore 1,
      ∃ r ∈ (renameRepoRuntime srv s app site).toOption,
        loadRepoFileTrace r.2 "site" "a.txt" ≠ loadRepoFileTrace s "app" "a.txt" := by
    decide +kernel
  obtain ⟨s, hs, ⟨path, t⟩, hr, hne⟩ := hlost
  refine ⟨s, path, t, hs, ?_, ?_⟩
  · cases h : renameRepoRuntime srv s app site with
    | error e =>
        rw [h] at hr
        cases hr
    | ok r =>
        rw [h] at hr
        exact congrArg Except.ok (Option.some.inj hr)
  · rintro ⟨hsame, -⟩
    exact hne (congrFun (congrArg Reports.fileTrace hsame) "a.txt")

end Sulion.RepoLifecycle
