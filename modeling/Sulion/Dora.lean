import Sulion.Lib.Attempt
import Sulion.Lib.Table
import Sulion.Lib.Transition
import Sulion.Rust.Text

set_option autoImplicit false

/-! # Collecting deployment evidence

A pass goes over the attempts of all workflow runs, stores the deployments it finds, and then the
commits that each of them brought. It stores a deployment once and passes over an attempt that it
has seen finished. So what an early pass sees has to be what a late one would see.

`evidence_independent` says when it is. The commits of a deployment are those since an earlier one
that was collected before, and a commit goes to an earlier deployment when that one is found later;
but the baseline is settled when the commits are collected, and of deployments at the same time the
one that was collected first keeps them.
-/

namespace Sulion.Dora

open Rust Transition

/-! ## What the outside answers -/

structure Step where
  name : String
  conclusion : Option String
  completedAt : Option Int

abbrev Job := List Step

structure Run where
  id : Int
  runAttempt : Nat
  status : String
  event : String
  headBranch : Option String
  headSha : String
  htmlUrl : String

/-- A source key: the id of a run, and the attempt. -/
abbrev Key := Int × Nat

/-- The statements that a pass may fail at. -/
inductive Write
  | deployment (key : Key)
  | runCheck (key : Key)
  | commits (key : Key)
  | scanned

structure Pass where
  now : Int
  /-- The runs of all pages; none where a request fails or there are too many runs. -/
  runs : Option (List Run)
  jobs : Key → Option (List Job)
  /-- The local history is not shallow. -/
  complete : Bool
  /-- `git log` of a range, or of all that a revision contains. -/
  log : Option String → String → Option (List (String × Int))
  stores : Write → Bool

def truenasStep (name : String) : Bool :=
  name = "Deploy to TrueNAS" || name = "Deploy to Komodo" ||
    startsWith name "Run chris-arsenault/ahara/.github/actions/deploy-truenas@"

def productionStep (name : String) : Bool := truenasStep name || name = "Terraform deploy"

def deployedAt (jobs : List Job) : Option Int :=
  let truenasAttempted := jobs.flatten.any fun step =>
    truenasStep step.name && step.conclusion != some "skipped"
  (((jobs.flatten.filter fun step =>
    if truenasAttempted then truenasStep step.name else productionStep step.name).filter fun step =>
      step.conclusion == some "success").filterMap (·.completedAt)).max?

def supported (jobs : List Job) : Bool := jobs.flatten.any fun step => productionStep step.name

/-- A run on main that was pushed or dispatched. -/
def relevant (run : Run) : Bool :=
  run.headBranch = some "main" && (run.event = "push" || run.event = "workflow_dispatch")

def isHex (c : Char) : Bool :=
  c.isDigit || ('a' ≤ c && c ≤ 'f') || ('A' ≤ c && c ≤ 'F')

/-- The revision is a sha, and the url is one of the repository's runs. -/
def valid (source : String) (run : Run) : Bool :=
  run.headSha.utf8ByteSize = 40 && run.headSha.toList.all isHex && startsWith run.htmlUrl source

/-- No more steps are to come. -/
def finished (run : Run) (attempt : Nat) : Bool :=
  attempt < run.runAttempt || run.status = "completed"

/-! ## The tables -/

/-- A row of `dora_deployments`; its id is made of its key. -/
structure Deployment where
  revision : String
  deployedAt : Int
  sourceUrl : String
  commitsCollected : Bool

/-- A row of `dora_commit_deployments`. -/
structure CommitRow where
  deployment : Key
  committedAt : Int
  baseline : Bool

structure State where
  deployments : Table Key Deployment
  runChecks : Table Key Bool
  commits : Table String CommitRow
  scanned : Bool

def State.empty : State := ⟨∅, ∅, ∅, false⟩

/-! ## A pass -/

def store (stored : Bool) (f : State → State) : Attempt State Unit :=
  if stored then .change f else .fail

/-- `ON CONFLICT DO NOTHING`. -/
def State.insertDeployment (s : State) (key : Key) (d : Deployment) : State :=
  { s with deployments := s.deployments.alter key fun old => some (old.getD d) }

def State.insertRunCheck (s : State) (key : Key) (supported : Bool) : State :=
  { s with runChecks := s.runChecks.alter key fun old => some (old.getD supported) }

def storeDeployment (p : Pass) (run : Run) (key : Key) (jobs : List Job) : Attempt State Unit :=
  match (deployedAt jobs).filter (· ≤ p.now) with
  | some time => store (p.stores (.deployment key))
      (·.insertDeployment key ⟨run.headSha, time, run.htmlUrl, false⟩)
  | none => pure ()

def storeRunCheck (p : Pass) (run : Run) (attempt : Nat) (jobs : List Job) : Attempt State Unit :=
  if finished run attempt then
    store (p.stores (.runCheck (run.id, attempt)))
      (·.insertRunCheck (run.id, attempt) (supported jobs))
  else pure ()

def checkAttempt (p : Pass) (run : Run) (attempt : Nat) : Attempt State Unit := fun s =>
  if (run.id, attempt) ∈ s.runChecks then (.ok (), s)
  else
    match p.jobs (run.id, attempt) with
    | none => (.error (), s)
    | some jobs =>
        (storeDeployment p run (run.id, attempt) jobs >>= fun _ =>
          storeRunCheck p run attempt jobs) s

def checkRun (source : String) (p : Pass) (run : Run) : Attempt State Unit :=
  if relevant run then
    if valid source run then .each (checkAttempt p run) (List.range' 1 run.runAttempt) else .fail
  else pure ()

/-- An attempt with a production step, in this pass or in one before. -/
def recognized (p : Pass) (s : State) (runs : List Run) : Bool :=
  (runs.filter relevant).any fun run => (List.range' 1 run.runAttempt).any fun attempt =>
    match s.runChecks[(run.id, attempt)]? with
    | some supported => supported
    | none => (p.jobs (run.id, attempt)).any supported

/-- `ORDER BY deployed_at, id`. -/
def rank (uuid : Key ↪ Nat) (x : Key × Deployment) : Int ×ₗ Nat :=
  toLex (x.2.deployedAt, uuid x.1)

def inOrder (uuid : Key ↪ Nat) (rows : List (Key × Deployment)) : List (Key × Deployment) :=
  rows.insertionSort fun x y => rank uuid x ≤ rank uuid y

def uncollected (uuid : Key ↪ Nat) (s : State) : List (Key × Deployment) :=
  inOrder uuid (s.deployments.toList.filter fun x => !x.2.commitsCollected)

/-- The last deployment before `time` whose commits are collected. -/
def previousTo (uuid : Key ↪ Nat) (s : State) (time : Int) : Option (Key × Deployment) :=
  (inOrder uuid (s.deployments.toList.filter fun x =>
    x.2.commitsCollected && decide (x.2.deployedAt < time))).getLast?

/-- The commits of a deployment: a stored row gives way when its deployment is later. -/
def State.attribute (s : State) (x : Key × Deployment) (baseline : Bool)
    (commits : List (String × Int)) : State :=
  { s with
    commits := Table.mergeList
      (fun old new =>
        if (s.deployments[old.deployment]?).any fun d => x.2.deployedAt < d.deployedAt then new
        else old)
      s.commits (commits.map fun commit => (commit.1, ⟨x.1, commit.2, baseline⟩))
    deployments := s.deployments.alter x.1 (·.map fun d => { d with commitsCollected := true }) }

def collectDeployment (uuid : Key ↪ Nat) (p : Pass) (x : Key × Deployment) :
    Attempt State Unit := fun s =>
  let previous := previousTo uuid s x.2.deployedAt
  match p.log (previous.map (·.2.revision)) x.2.revision with
  | none => (.error (), s)
  | some commits => store (p.stores (.commits x.1)) (·.attribute x previous.isNone commits) s

def collectCommits (uuid : Key ↪ Nat) (p : Pass) : Attempt State Unit := fun s =>
  if p.complete then Attempt.each (collectDeployment uuid p) (uncollected uuid s) s
  else (.error (), s)

/-- `collect`. It returns whether it has collected all commits; else there is a warning. -/
def collect (uuid : Key ↪ Nat) (source : String) (p : Pass) : Attempt State Bool := fun s =>
  match p.runs with
  | none => (.error (), s)
  | some runs =>
      match Attempt.each (checkRun source p) runs s with
      | (.error e, t) => (.error e, t)
      | (.ok _, t) =>
          if recognized p s runs || t.scanned then
            let (outcome, u) := collectCommits uuid p t
            if p.stores .scanned then (.ok outcome.isOk, { u with scanned := true })
            else (.error (), u)
          else (.error (), t)

/-- A pass of a schedule, whether it succeeds or not. -/
def step (uuid : Key ↪ Nat) (source : String) (s : State) (p : Pass) : Option State :=
  some (collect uuid source p s).2

/-! ## What the evidence is -/

/-- The attempts, their jobs when no more steps are to come, and the commits. -/
structure World where
  attempts : Set Key
  finalJobs : Key → List Job
  revision : Int → String
  url : Int → String
  parents : String → List String
  committedAt : String → Int

def World.deployedAt (w : World) (key : Key) : Option Int := Dora.deployedAt (w.finalJobs key)

/-- The commit is the revision or an ancestor of it. -/
def World.Contains (w : World) (revision commit : String) : Prop :=
  Relation.ReflTransGen (fun child parent => parent ∈ w.parents child) revision commit

/-- The pass is told of the attempt. -/
def Pass.Lists (p : Pass) (run : Run) (attempt : Nat) : Prop :=
  ∃ runs, p.runs = some runs ∧ run ∈ runs ∧ relevant run ∧ attempt ∈ List.range' 1 run.runAttempt

/-- The answers are about this world. -/
structure Faithful (w : World) (p : Pass) : Prop where
  run : ∀ run attempt, p.Lists run attempt → (run.id, attempt) ∈ w.attempts ∧
    run.headSha = w.revision run.id ∧ run.htmlUrl = w.url run.id
  jobs : ∀ run attempt, p.Lists run attempt → finished run attempt → ∀ jobs,
    p.jobs (run.id, attempt) = some jobs → jobs = w.finalJobs (run.id, attempt)
  log : ∀ previous revision commits, p.log previous revision = some commits →
    (commits.map (·.1)).Nodup ∧ ∀ sha time, (sha, time) ∈ commits ↔ w.Contains revision sha ∧
      (∀ earlier ∈ previous, ¬ w.Contains earlier sha) ∧ time = w.committedAt sha

/-- The deployment is stored and its commits are collected. -/
def Collected (s : State) (key : Key) (d : Deployment) : Prop :=
  s.deployments[key]? = some d ∧ d.commitsCollected = true

/-- The pass finds a deployment that is not stored. -/
def Pass.Finds (p : Pass) (s : State) (key : Key) (time : Int) : Prop :=
  ∃ run attempt jobs, p.Lists run attempt ∧ key = (run.id, attempt) ∧ key ∉ s.runChecks ∧
    key ∉ s.deployments ∧ p.jobs key = some jobs ∧ deployedAt jobs = some time ∧ time ≤ p.now

/-- The deployment is not before all that are collected, and is ordered behind those of its time. -/
structure Late (uuid : Key ↪ Nat) (s : State) (key : Key) (time : Int) : Prop where
  sameTime : ∀ k d, Collected s k d → d.deployedAt = time → uuid k < uuid key
  notFirst : (∃ k d, Collected s k d) → ∃ k d, Collected s k d ∧ d.deployedAt ≤ time

/-- What the pass finds is final and not too late to be ordered, and no finished attempt is ahead of
the clock. -/
structure InOrder (uuid : Key ↪ Nat) (w : World) (s : State) (p : Pass) : Prop where
  found : ∀ key time, p.Finds s key time →
    w.deployedAt key = some time ∧ Late uuid s key time
  onTime : ∀ run attempt, p.Lists run attempt → finished run attempt → ∀ time,
    w.deployedAt (run.id, attempt) = some time → time ≤ p.now

/-- All attempts are there and over. -/
def Complete (w : World) (p : Pass) : Prop :=
  ∀ key ∈ w.attempts, ∃ run attempt, p.Lists run attempt ∧ key = (run.id, attempt) ∧
    finished run attempt

/-- A commit is that of the first deployment which contains it, and is in the baseline when no
deployment is earlier. -/
structure Attributed (uuid : Key ↪ Nat) (w : World) (s : State) (sha : String) (row : CommitRow)
    (d : Deployment) : Prop where
  collected : Collected s row.deployment d
  contains : w.Contains d.revision sha
  first : ∀ k e, Collected s k e → w.Contains e.revision sha →
    rank uuid (row.deployment, d) ≤ rank uuid (k, e)
  committedAt : row.committedAt = w.committedAt sha
  baseline : row.baseline = true ↔ ∀ k e, Collected s k e → d.deployedAt ≤ e.deployedAt

/-- The tables hold the evidence of the world. -/
structure Evidence (uuid : Key ↪ Nat) (w : World) (s : State) : Prop where
  deployments : ∀ key d, s.deployments[key]? = some d ↔ key ∈ w.attempts ∧
    w.deployedAt key = some d.deployedAt ∧ d.revision = w.revision key.1 ∧
    d.sourceUrl = w.url key.1 ∧ d.commitsCollected = true
  commits : ∀ sha row, s.commits[sha]? = some row ↔ ∃ d, Attributed uuid w s sha row d

variable {uuid : Key ↪ Nat} {source : String} {w : World} {p : Pass} {s t : State} {key : Key}
  {d : Deployment} {sha : String} {row : CommitRow}

/-! ## The order -/

theorem rank_le {x y : Key × Deployment} : rank uuid x ≤ rank uuid y ↔
    x.2.deployedAt < y.2.deployedAt ∨ x.2.deployedAt = y.2.deployedAt ∧ uuid x.1 ≤ uuid y.1 :=
  Prod.Lex.toLex_le_toLex

theorem mem_inOrder {rows : List (Key × Deployment)} {x : Key × Deployment} :
    x ∈ inOrder uuid rows ↔ x ∈ rows := List.mem_insertionSort _

theorem mem_collected {x : Key × Deployment} :
    x ∈ s.deployments.toList ↔ s.deployments[x.1]? = some x.2 :=
  Std.ExtTreeMap.mem_toList_iff_getElem?_eq_some

/-- The deployments that are left, in their order. -/
structure Pending (uuid : Key ↪ Nat) (s : State) (rest : List (Key × Deployment)) : Prop where
  sorted : rest.Pairwise fun x y => rank uuid x ≤ rank uuid y
  keys : rest.Pairwise fun x y => x.1 ≠ y.1
  mem : ∀ x, x ∈ rest ↔ s.deployments[x.1]? = some x.2 ∧ x.2.commitsCollected = false

theorem pending_uncollected (uuid : Key ↪ Nat) (s : State) :
    Pending uuid s (uncollected uuid s) where
  sorted := by
    have htotal : Std.Total fun x y : Key × Deployment => rank uuid x ≤ rank uuid y :=
      ⟨fun x y => le_total _ _⟩
    have htrans : IsTrans (Key × Deployment) fun x y => rank uuid x ≤ rank uuid y :=
      ⟨fun _ _ _ => le_trans⟩
    exact List.pairwise_insertionSort _ _
  keys := by
    have hkeys : (s.deployments.toList.map Prod.fst).Nodup := Table.nodup_keys s.deployments
    have hfilter := (List.pairwise_map.mp hkeys).filter fun x => !x.2.commitsCollected
    exact (List.perm_insertionSort _ _).symm.pairwise hfilter fun h => Ne.symm h
  mem x := by
    rw [uncollected, mem_inOrder, List.mem_filter, mem_collected]
    simp

theorem of_previousTo_none {time : Int} (h : previousTo uuid s time = none) :
    ∀ k e, Collected s k e → time ≤ e.deployedAt := by
  intro k e ⟨hrow, hcollected⟩
  by_contra hlt
  rw [previousTo, List.getLast?_eq_none_iff] at h
  have hmem : (k, e) ∈ inOrder uuid (s.deployments.toList.filter fun x =>
      x.2.commitsCollected && decide (x.2.deployedAt < time)) := by
    rw [mem_inOrder, List.mem_filter, mem_collected]
    exact ⟨hrow, by simpa [hcollected] using hlt⟩
  rw [h] at hmem
  cases hmem

theorem of_previousTo_some {time : Int} {x : Key × Deployment}
    (h : previousTo uuid s time = some x) : Collected s x.1 x.2 ∧ x.2.deployedAt < time := by
  have hmem := List.mem_of_getLast? h
  rw [mem_inOrder, List.mem_filter, mem_collected] at hmem
  simp only [Bool.and_eq_true, decide_eq_true_eq] at hmem
  exact ⟨⟨hmem.1, hmem.2.1⟩, hmem.2.2⟩

/-! ## What every pass keeps -/

/-- What is stored is final, the rows of the commits are those of the deployments collected so far,
and a deployment whose commits are not yet collected is late. -/
structure Inv (uuid : Key ↪ Nat) (w : World) (s : State) : Prop where
  found : ∀ key d, s.deployments[key]? = some d → key ∈ w.attempts ∧
    w.deployedAt key = some d.deployedAt ∧ d.revision = w.revision key.1 ∧
    d.sourceUrl = w.url key.1
  checked : ∀ key ∈ s.runChecks, ∀ time, w.deployedAt key = some time → key ∈ s.deployments
  row : ∀ sha row, s.commits[sha]? = some row → ∃ d, Attributed uuid w s sha row d
  contained : ∀ key d, Collected s key d → ∀ sha, w.Contains d.revision sha → sha ∈ s.commits
  late : ∀ key d, s.deployments[key]? = some d → d.commitsCollected = false →
    Late uuid s key d.deployedAt

theorem Inv.empty (uuid : Key ↪ Nat) (w : World) : Inv uuid w .empty where
  found key d h := by simp [State.empty] at h
  checked key h := by simp [State.empty] at h
  row sha row h := by simp [State.empty] at h
  contained key d h := by simp [Collected, State.empty] at h
  late key d h := by simp [State.empty] at h

/-- As long as the same deployments are collected, nothing changes for the commits. -/
theorem Attributed.congr (h : Attributed uuid w s sha row d)
    (hsame : ∀ k e, Collected t k e ↔ Collected s k e) : Attributed uuid w t sha row d where
  collected := (hsame _ _).mpr h.collected
  contains := h.contains
  first k e he := h.first k e ((hsame k e).mp he)
  committedAt := h.committedAt
  baseline := h.baseline.trans (forall₂_congr fun k e => by rw [hsame])

theorem Late.congr {time : Int} (h : Late uuid s key time)
    (hsame : ∀ k e, Collected t k e ↔ Collected s k e) : Late uuid t key time where
  sameTime k e he := h.sameTime k e ((hsame k e).mp he)
  notFirst := by
    simp only [hsame]
    exact h.notFirst

/-! ## Going over the attempts -/

/-- What holds while a pass that began in `s₀` goes over the attempts: no commits are collected. -/
structure Checking (uuid : Key ↪ Nat) (w : World) (s₀ s : State) : Prop where
  inv : Inv uuid w s
  collected : ∀ k e, Collected s k e ↔ Collected s₀ k e
  deployments : ∀ key ∈ s₀.deployments, key ∈ s.deployments
  runChecks : ∀ key ∈ s₀.runChecks, key ∈ s.runChecks

theorem store_leads {P E : State → Prop} {Q : Unit → State → Prop} {stored : Bool}
    {f : State → State} (hstored : ∀ s, P s → Q () (f s)) (hfailed : ∀ s, P s → E s) :
    Attempt.Leads P (store stored f) Q E := by
  rw [store]
  split
  · exact Attempt.Leads.change hstored
  · exact Attempt.Leads.fail hfailed

theorem lookup_insertDeployment (s : State) (key k : Key) (d : Deployment) :
    (s.insertDeployment key d).deployments[k]? =
      if key = k then some (s.deployments[key]?.getD d) else s.deployments[k]? := by
  rw [State.insertDeployment, Std.ExtTreeMap.getElem?_alter]
  simp only [Std.LawfulEqCmp.compare_eq_iff_eq]

theorem mem_insertRunCheck {supported : Bool} {k : Key} :
    k ∈ (s.insertRunCheck key supported).runChecks ↔ key = k ∨ k ∈ s.runChecks := by
  rw [State.insertRunCheck, Std.ExtTreeMap.mem_alter]
  simp only [Std.LawfulEqCmp.compare_eq_iff_eq]
  split <;> simp_all

/-- A new deployment of the world, which is late. -/
theorem Inv.insertDeployment (h : Inv uuid w s) (hnew : key ∉ s.deployments)
    (hd : key ∈ w.attempts ∧ w.deployedAt key = some d.deployedAt ∧
      d.revision = w.revision key.1 ∧ d.sourceUrl = w.url key.1)
    (huncollected : d.commitsCollected = false) (hlate : Late uuid s key d.deployedAt) :
    Inv uuid w (s.insertDeployment key d) ∧
      ∀ k e, Collected (s.insertDeployment key d) k e ↔ Collected s k e := by
  have hnone : s.deployments[key]? = none := Std.ExtTreeMap.getElem?_eq_none hnew
  -- the new row is not collected, so nothing that speaks of collected ones changes
  have hlookup : ∀ k, (s.insertDeployment key d).deployments[k]? =
      if key = k then some d else s.deployments[k]? := by
    intro k
    rw [lookup_insertDeployment, hnone]
    rfl
  have hsame : ∀ k e, Collected (s.insertDeployment key d) k e ↔ Collected s k e := by
    intro k e
    rw [Collected, Collected, hlookup]
    split
    · rename_i hk
      subst hk
      rw [hnone, Option.some.injEq]
      constructor
      · rintro ⟨rfl, hcollected⟩
        rw [huncollected] at hcollected
        cases hcollected
      · rintro ⟨hrow, -⟩
        cases hrow
    · rfl
  refine ⟨⟨fun k e hrow => ?_, fun k hk time htime => ?_, fun sha row hrow => ?_,
    fun k e he => h.contained k e ((hsame k e).mp he), fun k e hrow hcollected => ?_⟩, hsame⟩
  · rw [hlookup] at hrow
    split at hrow
    · rename_i hk
      cases hrow
      exact hk ▸ hd
    · exact h.found k e hrow
  · rw [Std.ExtTreeMap.mem_iff_isSome_getElem?, hlookup]
    split
    · rfl
    · exact Std.ExtTreeMap.mem_iff_isSome_getElem?.mp (h.checked k hk time htime)
  · obtain ⟨e, he⟩ := h.row sha row hrow
    exact ⟨e, he.congr hsame⟩
  · rw [hlookup] at hrow
    split at hrow
    · rename_i hk
      cases hrow
      exact hk ▸ hlate.congr hsame
    · exact (h.late k e hrow hcollected).congr hsame

/-- The deployment is found now, or it is stored already. -/
theorem Checking.insertDeployment {s₀ : State} (h : Checking uuid w s₀ s)
    (hattempt : key ∈ w.attempts) (hrevision : d.revision = w.revision key.1)
    (hurl : d.sourceUrl = w.url key.1) (huncollected : d.commitsCollected = false)
    (hfound : key ∉ s.deployments →
      w.deployedAt key = some d.deployedAt ∧ Late uuid s₀ key d.deployedAt) :
    Checking uuid w s₀ (s.insertDeployment key d) ∧
      key ∈ (s.insertDeployment key d).deployments := by
  have hmem : key ∈ (s.insertDeployment key d).deployments := by
    rw [Std.ExtTreeMap.mem_iff_isSome_getElem?, lookup_insertDeployment, if_pos rfl]
    rfl
  by_cases hnew : key ∈ s.deployments
  · have hsame : s.insertDeployment key d = s := by
      obtain ⟨old, hold⟩ := Option.isSome_iff_exists.mp
        (Std.ExtTreeMap.mem_iff_isSome_getElem?.mp hnew)
      have htable : (s.insertDeployment key d).deployments = s.deployments := by
        refine Table.ext fun k => ?_
        rw [lookup_insertDeployment, hold]
        split
        · rename_i hk
          rw [← hk, hold]
          rfl
        · rfl
      cases s
      exact congrArg (State.mk · _ _ _) htable
    exact ⟨hsame.symm ▸ h, hmem⟩
  · obtain ⟨hinv, hcollected⟩ :=
      h.inv.insertDeployment hnew ⟨hattempt, (hfound hnew).1, hrevision, hurl⟩ huncollected
        ((hfound hnew).2.congr h.collected)
    refine ⟨⟨hinv, fun k e => (hcollected k e).trans (h.collected k e), fun k hk => ?_,
      h.runChecks⟩, hmem⟩
    rw [Std.ExtTreeMap.mem_iff_isSome_getElem?, lookup_insertDeployment]
    split
    · rfl
    · exact Std.ExtTreeMap.mem_iff_isSome_getElem?.mp (h.deployments k hk)

theorem Checking.insertRunCheck {s₀ : State} {supported : Bool} (h : Checking uuid w s₀ s)
    (hstored : ∀ time, w.deployedAt key = some time → key ∈ s.deployments) :
    Checking uuid w s₀ (s.insertRunCheck key supported) where
  inv :=
    { found := h.inv.found
      checked := fun k hk time htime => by
        rcases mem_insertRunCheck.mp hk with rfl | hold
        · exact hstored time htime
        · exact h.inv.checked k hold time htime
      row := fun sha row hrow =>
        (h.inv.row sha row hrow).imp fun d hd => hd.congr fun _ _ => Iff.rfl
      contained := h.inv.contained
      late := fun k e hrow hcollected =>
        (h.inv.late k e hrow hcollected).congr fun _ _ => Iff.rfl }
  collected := h.collected
  deployments := h.deployments
  runChecks k hk := mem_insertRunCheck.mpr (Or.inr (h.runChecks k hk))

/-- While the attempts of `p` are gone over, those of `checked` being done with. -/
def Going (uuid : Key ↪ Nat) (w : World) (s₀ : State) (checked : Set Key) (s : State) : Prop :=
  Checking uuid w s₀ s ∧ ∀ key ∈ checked, key ∈ s.runChecks

/-- The deployment of a finished attempt is stored before the attempt is checked. -/
theorem storeDeployment_leads {s₀ : State} {checked : Set Key} {run : Run} {attempt : Nat}
    {jobs : List Job} (hfaithful : Faithful w p) (hok : InOrder uuid w s₀ p)
    (hlists : p.Lists run attempt) (hjobs : p.jobs (run.id, attempt) = some jobs) :
    Attempt.Leads (fun s => Going uuid w s₀ checked s ∧ (run.id, attempt) ∉ s.runChecks)
      (storeDeployment p run (run.id, attempt) jobs)
      (fun _ s => Going uuid w s₀ checked s ∧ (finished run attempt → ∀ time,
        w.deployedAt (run.id, attempt) = some time → (run.id, attempt) ∈ s.deployments))
      (Checking uuid w s₀) := by
  have hfinal : finished run attempt → jobs = w.finalJobs (run.id, attempt) := fun hfinished =>
    hfaithful.jobs run attempt hlists hfinished jobs hjobs
  rw [storeDeployment]
  split
  · rename_i time htime
    obtain ⟨hdeployed, hnow⟩ := Option.filter_eq_some_iff.mp htime
    refine store_leads (fun s ⟨⟨hs, hchecked⟩, hnot⟩ => ?_) fun s hs => hs.1.1
    obtain ⟨hattempt, hsha, hurl⟩ := hfaithful.run run attempt hlists
    obtain ⟨hnext, hmem⟩ := Checking.insertDeployment (d := ⟨run.headSha, time, run.htmlUrl, false⟩)
      hs hattempt hsha hurl rfl fun hnew => hok.found _ time ⟨run, attempt, jobs, hlists, rfl,
        fun h => hnot (hs.runChecks _ h), fun h => hnew (hs.deployments _ h), hjobs, hdeployed,
        of_decide_eq_true hnow⟩
    exact ⟨⟨hnext, hchecked⟩, fun _ _ _ => hmem⟩
  · rename_i hnone
    refine Attempt.Leads.pure fun s hs => ⟨hs.1, fun hfinished time htime => ?_⟩
    have hdeployed : deployedAt jobs = some time := hfinal hfinished ▸ htime
    have hnow := hok.onTime run attempt hlists hfinished time htime
    rw [hdeployed, Option.filter_some, if_pos (decide_eq_true hnow)] at hnone
    cases hnone

theorem checkAttempt_leads {s₀ : State} {checked : Set Key} {run : Run} {attempt : Nat}
    (hfaithful : Faithful w p) (hok : InOrder uuid w s₀ p) (hlists : p.Lists run attempt) :
    Attempt.Leads (Going uuid w s₀ checked) (checkAttempt p run attempt)
      (fun _ => Going uuid w s₀
        (checked ∪ {key | finished run attempt ∧ key = (run.id, attempt)}))
      (Checking uuid w s₀) := by
  intro s hs
  by_cases hdone : (run.id, attempt) ∈ s.runChecks
  · rw [checkAttempt, if_pos hdone]
    refine ⟨hs.1, fun key hkey => ?_⟩
    rcases hkey with hkey | ⟨-, rfl⟩
    · exact hs.2 key hkey
    · exact hdone
  · cases hjobs : p.jobs (run.id, attempt) with
    | none =>
        rw [checkAttempt, if_neg hdone, hjobs]
        exact hs.1
    | some jobs =>
        rw [checkAttempt, if_neg hdone, hjobs]
        refine Attempt.Leads.bind (storeDeployment_leads hfaithful hok hlists hjobs) (fun _ => ?_) s
          ⟨hs, hdone⟩
        rw [storeRunCheck]
        split
        · rename_i hfinished
          refine store_leads (fun t ⟨ht, hstored⟩ => ?_) fun t ht => ht.1.1
          refine ⟨ht.1.insertRunCheck (hstored hfinished), fun key hkey => ?_⟩
          rcases hkey with hkey | ⟨-, rfl⟩
          · exact mem_insertRunCheck.mpr (Or.inr (ht.2 key hkey))
          · exact mem_insertRunCheck.mpr (Or.inl rfl)
        · rename_i hgoing
          refine Attempt.Leads.pure fun t ht => ⟨ht.1.1, fun key hkey => ?_⟩
          exact ht.1.2 key (hkey.resolve_right fun h => hgoing h.1)

/-- Going through a list, each item of which adds its keys. -/
theorem each_leads {α : Type} {s₀ : State} {f : α → Attempt State Unit} {keys : α → Set Key}
    (items : List α) (checked : Set Key)
    (h : ∀ a ∈ items, ∀ checked, Attempt.Leads (Going uuid w s₀ checked) (f a)
      (fun _ => Going uuid w s₀ (checked ∪ keys a)) (Checking uuid w s₀)) :
    Attempt.Leads (Going uuid w s₀ checked) (.each f items)
      (fun _ => Going uuid w s₀ (checked ∪ {key | ∃ a ∈ items, key ∈ keys a}))
      (Checking uuid w s₀) := by
  induction items generalizing checked with
  | nil => exact fun s hs => ⟨hs.1, fun key hkey => hs.2 key (hkey.resolve_right (by simp))⟩
  | cons a items ih =>
      refine Attempt.Leads.bind (h a List.mem_cons_self checked) fun _ => ?_
      refine (ih _ fun b hb => h b (List.mem_cons_of_mem _ hb)).mono (fun s h => h)
        (fun _ s hs => ⟨hs.1, fun key hkey => hs.2 key ?_⟩) fun s h => h
      rcases hkey with hkey | ⟨b, hb, hkey⟩
      · exact Or.inl (Or.inl hkey)
      · rcases List.mem_cons.mp hb with rfl | hb
        · exact Or.inl (Or.inr hkey)
        · exact Or.inr ⟨b, hb, hkey⟩

/-- The keys of a run's finished attempts. -/
def finishedKeys (run : Run) : Set Key :=
  {key | relevant run ∧ ∃ attempt ∈ List.range' 1 run.runAttempt,
    finished run attempt ∧ key = (run.id, attempt)}

theorem checkRun_leads (source : String) {s₀ : State} {checked : Set Key} {run : Run}
    (hfaithful : Faithful w p) (hok : InOrder uuid w s₀ p) {runs : List Run}
    (hruns : p.runs = some runs) (hrun : run ∈ runs) :
    Attempt.Leads (Going uuid w s₀ checked) (checkRun source p run)
      (fun _ => Going uuid w s₀ (checked ∪ finishedKeys run)) (Checking uuid w s₀) := by
  rw [checkRun]
  split
  · rename_i hrelevant
    split
    · refine (each_leads _ checked fun attempt hattempt checked => checkAttempt_leads hfaithful hok
        ⟨runs, hruns, hrun, hrelevant, hattempt⟩).mono (fun s h => h)
        (fun _ s hs => ⟨hs.1, fun key hkey => hs.2 key (hkey.imp_right fun h => h.2)⟩) fun s h => h
    · exact Attempt.Leads.fail fun s hs => hs.1
  · rename_i hother
    refine Attempt.Leads.pure fun s hs => ⟨hs.1, fun key hkey => hs.2 key ?_⟩
    exact hkey.resolve_right fun h => hother h.1

/-! ## Collecting the commits of a deployment -/

/-- The deployment when its commits are collected. -/
def Deployment.done (d : Deployment) : Deployment := { d with commitsCollected := true }

/-- The output of the log between an earlier deployment, if there is one, and this one. -/
structure Range (uuid : Key ↪ Nat) (w : World) (s : State) (d : Deployment)
    (commits : List (String × Int)) : Prop where
  nodup : (commits.map (·.1)).Nodup
  mem : ∀ commit, commit ∈ commits ↔ w.Contains d.revision commit.1 ∧
    (∀ x ∈ previousTo uuid s d.deployedAt, ¬ w.Contains x.2.revision commit.1) ∧
      commit.2 = w.committedAt commit.1

section Attribute

variable {commits : List (String × Int)} {baseline : Bool}

theorem lookup_attribute (s : State) (x : Key × Deployment) (k : Key) :
    (s.attribute x baseline commits).deployments[k]? =
      if x.1 = k then s.deployments[x.1]?.map Deployment.done else s.deployments[k]? := by
  rw [State.attribute, Std.ExtTreeMap.getElem?_alter]
  simp only [Std.LawfulEqCmp.compare_eq_iff_eq]
  rfl

theorem collected_attribute (hd : s.deployments[key]? = some d) (hopen : d.commitsCollected = false)
    {k : Key} {e : Deployment} :
    Collected (s.attribute (key, d) baseline commits) k e ↔
      (k = key ∧ e = d.done) ∨ Collected s k e := by
  rw [Collected, Collected, lookup_attribute]
  by_cases hk : key = k
  · subst hk
    rw [if_pos rfl, hd, Option.map_some, Option.some.injEq, Option.some.injEq]
    constructor
    · rintro ⟨rfl, -⟩
      exact Or.inl ⟨rfl, rfl⟩
    · rintro (⟨-, rfl⟩ | ⟨rfl, hcollected⟩)
      · exact ⟨rfl, rfl⟩
      · rw [hopen] at hcollected
        cases hcollected
  · rw [if_neg hk]
    exact ⟨Or.inr, fun h => h.resolve_left fun h => hk h.1.symm⟩

/-- A commit that is not in the range keeps its row. -/
theorem lookup_commits_of_notMem (h : sha ∉ commits.map (·.1)) (x : Key × Deployment) :
    (s.attribute x baseline commits).commits[sha]? = s.commits[sha]? := by
  rw [State.attribute]
  refine Table.lookup_mergeList_of_not_mem _ _ _ _ fun kr hkr hsame => h ?_
  obtain ⟨commit, hcommit, rfl⟩ := List.mem_map.mp hkr
  exact hsame ▸ List.mem_map_of_mem hcommit

theorem lookup_commits_of_mem {commit : String × Int} (hnodup : (commits.map (·.1)).Nodup)
    (h : commit ∈ commits) (x : Key × Deployment) :
    (s.attribute x baseline commits).commits[commit.1]? =
      some (s.commits[commit.1]?.elim ⟨x.1, commit.2, baseline⟩ fun old =>
        if (s.deployments[old.deployment]?).any fun d => x.2.deployedAt < d.deployedAt then
          ⟨x.1, commit.2, baseline⟩
        else old) := by
  rw [State.attribute]
  refine Table.lookup_mergeList_of_mem _ _ _ ?_ (List.mem_map.mpr ⟨commit, h, rfl⟩)
  exact List.pairwise_map.mpr (List.pairwise_map.mp hnodup)

/-- A row stays when its deployment is not later than the new one. -/
theorem Attributed.kept {e : Deployment} (h : Attributed uuid w s sha row e)
    (hd : s.deployments[key]? = some d) (hopen : d.commitsCollected = false)
    (hlate : Late uuid s key d.deployedAt)
    (hnot : w.Contains d.revision sha → e.deployedAt ≤ d.deployedAt) :
    Attributed uuid w (s.attribute (key, d) baseline commits) sha row e where
  collected := (collected_attribute hd hopen).mpr (Or.inr h.collected)
  contains := h.contains
  first k f hf hcontains := by
    rcases (collected_attribute hd hopen).mp hf with ⟨rfl, rfl⟩ | hold
    · refine rank_le.mpr ((lt_or_eq_of_le (hnot hcontains)).imp_right fun htime => ⟨htime, ?_⟩)
      exact (hlate.sameTime _ _ h.collected htime).le
    · exact h.first k f hold hcontains
  committedAt := h.committedAt
  baseline := by
    rw [h.baseline]
    constructor
    · intro hall k f hf
      rcases (collected_attribute hd hopen).mp hf with ⟨rfl, rfl⟩ | hold
      · -- something collected is not after the new deployment
        obtain ⟨k, g, hg, htime⟩ := hlate.notFirst ⟨_, _, h.collected⟩
        exact (hall k g hg).trans htime
      · exact hall k f hold
    · exact fun hall k f hf => hall k f ((collected_attribute hd hopen).mpr (Or.inr hf))

/-- The row of a commit that no deployment up to now had. -/
theorem attributed_new (hd : s.deployments[key]? = some d) (hopen : d.commitsCollected = false)
    (hcontains : w.Contains d.revision sha)
    (hlater : ∀ k e, Collected s k e → w.Contains e.revision sha → d.deployedAt < e.deployedAt) :
    Attributed uuid w
      (s.attribute (key, d) (previousTo uuid s d.deployedAt).isNone commits) sha
      ⟨key, w.committedAt sha, (previousTo uuid s d.deployedAt).isNone⟩ d.done where
  collected := (collected_attribute hd hopen).mpr (Or.inl ⟨rfl, rfl⟩)
  contains := hcontains
  first k e he hcontains := by
    rcases (collected_attribute hd hopen).mp he with ⟨rfl, rfl⟩ | hold
    · exact le_rfl
    · exact rank_le.mpr (Or.inl (hlater k e hold hcontains))
  committedAt := rfl
  baseline := by
    constructor
    · intro hnone k e he
      rcases (collected_attribute hd hopen).mp he with ⟨rfl, rfl⟩ | hold
      · exact le_rfl
      · exact of_previousTo_none (Option.isNone_iff_eq_none.mp hnone) k e hold
    · intro hall
      cases hprevious : previousTo uuid s d.deployedAt with
      | none => rfl
      | some x =>
          obtain ⟨hx, htime⟩ := of_previousTo_some hprevious
          have hle := hall x.1 x.2 ((collected_attribute hd hopen).mpr (Or.inr hx))
          exact absurd htime (not_lt.mpr hle)

/-- What the range leaves out is in an earlier deployment. -/
theorem Range.exists_previous (hrange : Range uuid w s d commits)
    (hcontains : w.Contains d.revision sha) (hnot : sha ∉ commits.map (·.1)) :
    ∃ k e, Collected s k e ∧ w.Contains e.revision sha ∧ e.deployedAt < d.deployedAt := by
  by_contra hnone
  push Not at hnone
  refine hnot (List.mem_map.mpr
    ⟨(sha, w.committedAt sha), (hrange.mem _).mpr ⟨hcontains, fun x hx hthere => ?_, rfl⟩, rfl⟩)
  obtain ⟨hcollected, htime⟩ := of_previousTo_some hx
  exact absurd htime (not_lt.mpr (hnone x.1 x.2 hcollected hthere))

/-- The row of a commit of the range: a new one, one that gave way, or an earlier one. -/
theorem Inv.row_of_mem (h : Inv uuid w s) (hd : s.deployments[key]? = some d)
    (hopen : d.commitsCollected = false) (hrange : Range uuid w s d commits)
    {commit : String × Int} (hcommit : commit ∈ commits)
    (hrow : (s.attribute (key, d) (previousTo uuid s d.deployedAt).isNone
      commits).commits[commit.1]? = some row) :
    ∃ e, Attributed uuid w (s.attribute (key, d) (previousTo uuid s d.deployedAt).isNone commits)
      commit.1 row e := by
  obtain ⟨hcontains, -, hcommitted⟩ := (hrange.mem commit).mp hcommit
  rw [lookup_commits_of_mem hrange.nodup hcommit, Option.some.injEq, hcommitted] at hrow
  cases hold : s.commits[commit.1]? with
  | none =>
      rw [hold, Option.elim_none] at hrow
      subst hrow
      refine ⟨d.done, attributed_new hd hopen hcontains fun k e he hthere => ?_⟩
      have hmem := Std.ExtTreeMap.mem_iff_isSome_getElem?.mp (h.contained k e he _ hthere)
      rw [hold] at hmem
      cases hmem
  | some old =>
      obtain ⟨e, he⟩ := h.row _ old hold
      rw [hold, Option.elim_some, he.collected.1, Option.any_some] at hrow
      split at hrow
      · rename_i hlater
        subst hrow
        -- the old row was the first one, so all others are later as well
        refine ⟨d.done, attributed_new hd hopen hcontains fun k f hf hthere => ?_⟩
        have htime : d.deployedAt < e.deployedAt := of_decide_eq_true hlater
        rcases rank_le.mp (he.first k f hf hthere) with hlt | ⟨hsame, -⟩
        · exact htime.trans hlt
        · exact hsame ▸ htime
      · rename_i hnot
        subst hrow
        have htime : e.deployedAt ≤ d.deployedAt := by simpa using hnot
        exact ⟨e, he.kept hd hopen (h.late key d hd hopen) fun _ => htime⟩

/-- A commit outside the range has its row already, if the deployment contains it. -/
theorem Inv.row_of_notMem (h : Inv uuid w s) (hd : s.deployments[key]? = some d)
    (hopen : d.commitsCollected = false) (hrange : Range uuid w s d commits)
    (hnot : sha ∉ commits.map (·.1)) (hrow : s.commits[sha]? = some row) :
    ∃ e, Attributed uuid w (s.attribute (key, d) baseline commits) sha row e := by
  obtain ⟨e, he⟩ := h.row sha row hrow
  refine ⟨e, he.kept hd hopen (h.late key d hd hopen) fun hcontains => ?_⟩
  obtain ⟨k, f, hcollected, hthere, htime⟩ := hrange.exists_previous hcontains hnot
  rcases rank_le.mp (he.first k f hcollected hthere) with hlt | ⟨hsame, -⟩
  · exact (hlt.trans htime).le
  · exact (hsame.trans_lt htime).le

theorem mem_commits_attribute (hnodup : (commits.map (·.1)).Nodup) (x : Key × Deployment) :
    sha ∈ (s.attribute x baseline commits).commits ↔
      sha ∈ commits.map (·.1) ∨ sha ∈ s.commits := by
  rw [Std.ExtTreeMap.mem_iff_isSome_getElem?, Std.ExtTreeMap.mem_iff_isSome_getElem?]
  by_cases hin : sha ∈ commits.map (·.1)
  · obtain ⟨commit, hcommit, rfl⟩ := List.mem_map.mp hin
    rw [lookup_commits_of_mem hnodup hcommit]
    exact ⟨fun _ => Or.inl hin, fun _ => rfl⟩
  · rw [lookup_commits_of_notMem hin]
    exact ⟨Or.inr, fun h => h.resolve_left hin⟩

/-- What is still to come is late for the deployment that was next. -/
theorem Late.attribute {k : Key} {e : Deployment} (h : Late uuid s k e.deployedAt)
    (hd : s.deployments[key]? = some d) (hopen : d.commitsCollected = false) (hne : key ≠ k)
    (hrank : rank uuid (key, d) ≤ rank uuid (k, e)) :
    Late uuid (s.attribute (key, d) baseline commits) k e.deployedAt where
  sameTime m f hf htime := by
    rcases (collected_attribute hd hopen).mp hf with ⟨rfl, rfl⟩ | hold
    · rcases rank_le.mp hrank with hlt | ⟨-, hid⟩
      · exact absurd htime hlt.ne
      · exact lt_of_le_of_ne hid fun hsame => hne (uuid.injective hsame)
    · exact h.sameTime m f hold htime
  notFirst _ := by
    refine ⟨key, d.done, (collected_attribute hd hopen).mpr (Or.inl ⟨rfl, rfl⟩), ?_⟩
    exact (rank_le.mp hrank).elim (fun hlt => hlt.le) fun h => h.1.le

/-- **A deployment whose commits are collected** takes those that it has first. -/
theorem Inv.attribute (h : Inv uuid w s) (hd : s.deployments[key]? = some d)
    (hopen : d.commitsCollected = false) (hrange : Range uuid w s d commits)
    (hleast : ∀ k e, s.deployments[k]? = some e → e.commitsCollected = false → k ≠ key →
      rank uuid (key, d) ≤ rank uuid (k, e)) :
    Inv uuid w (s.attribute (key, d) (previousTo uuid s d.deployedAt).isNone commits) where
  found k e hrow := by
    rw [lookup_attribute] at hrow
    split at hrow
    · rename_i hk
      rw [hd] at hrow
      cases hrow
      exact hk ▸ h.found key d hd
    · exact h.found k e hrow
  checked k hk time htime := by
    have hmem := Std.ExtTreeMap.mem_iff_isSome_getElem?.mp (h.checked k hk time htime)
    rw [Std.ExtTreeMap.mem_iff_isSome_getElem?, lookup_attribute]
    split
    · rw [hd]
      rfl
    · exact hmem
  row sha row hrow := by
    by_cases hin : sha ∈ commits.map (·.1)
    · obtain ⟨commit, hcommit, rfl⟩ := List.mem_map.mp hin
      exact h.row_of_mem hd hopen hrange hcommit hrow
    · rw [lookup_commits_of_notMem hin] at hrow
      exact h.row_of_notMem hd hopen hrange hin hrow
  contained k e he sha hcontains := by
    rw [mem_commits_attribute hrange.nodup]
    rcases (collected_attribute hd hopen).mp he with ⟨rfl, rfl⟩ | hold
    · by_contra hnot
      push Not at hnot
      obtain ⟨k, e, hcollected, hthere, -⟩ := hrange.exists_previous hcontains hnot.1
      exact hnot.2 (h.contained k e hcollected sha hthere)
    · exact Or.inr (h.contained k e hold sha hcontains)
  late k e hrow hcollected := by
    have hne : key ≠ k := by
      rintro rfl
      rw [lookup_attribute, if_pos rfl, hd] at hrow
      cases hrow
      cases hcollected
    rw [lookup_attribute, if_neg hne] at hrow
    exact (h.late k e hrow hcollected).attribute hd hopen hne
      (hleast k e hrow hcollected hne.symm)

end Attribute

/-! ## A whole pass -/

theorem Faithful.range (h : Faithful w p) {commits : List (String × Int)}
    (hlog : p.log ((previousTo uuid s d.deployedAt).map (·.2.revision)) d.revision =
      some commits) : Range uuid w s d commits := by
  obtain ⟨hnodup, hmem⟩ := h.log _ _ _ hlog
  refine ⟨hnodup, fun commit => (hmem commit.1 commit.2).trans ?_⟩
  refine and_congr_right fun _ => and_congr_left fun _ => ?_
  cases previousTo uuid s d.deployedAt <;> simp

/-- What holds while the commits are collected, with `rest` to come. -/
structure Collecting (uuid : Key ↪ Nat) (w : World) (checked : Set Key)
    (rest : List (Key × Deployment)) (s : State) : Prop where
  inv : Inv uuid w s
  pending : Pending uuid s rest
  checked : ∀ key ∈ checked, key ∈ s.runChecks

theorem collectDeployment_leads {checked : Set Key} (hfaithful : Faithful w p)
    (x : Key × Deployment) (rest : List (Key × Deployment)) :
    Attempt.Leads (Collecting uuid w checked (x :: rest)) (collectDeployment uuid p x)
      (fun _ => Collecting uuid w checked rest) (Inv uuid w) := by
  intro s hs
  obtain ⟨key, d⟩ := x
  cases hlog : p.log ((previousTo uuid s d.deployedAt).map (·.2.revision)) d.revision with
  | none =>
      simp only [collectDeployment, hlog]
      exact hs.inv
  | some commits =>
      simp only [collectDeployment, hlog]
      refine store_leads (P := (· = s)) ?_ ?_ s rfl
      · rintro t rfl
        obtain ⟨hsorted, hrest⟩ := List.pairwise_cons.mp hs.pending.sorted
        obtain ⟨hkeys, hrestKeys⟩ := List.pairwise_cons.mp hs.pending.keys
        obtain ⟨hd, hopen⟩ := (hs.pending.mem (key, d)).mp List.mem_cons_self
        refine ⟨hs.inv.attribute hd hopen (hfaithful.range hlog) fun k e hrow hleft hne => ?_,
          ⟨hrest, hrestKeys, fun y => ?_⟩, hs.checked⟩
        · have hmem := (hs.pending.mem (k, e)).mpr ⟨hrow, hleft⟩
          rcases List.mem_cons.mp hmem with hsame | hmem
          · exact absurd (congrArg (·.1) hsame) hne
          · exact hsorted _ hmem
        · rw [lookup_attribute]
          constructor
          · intro hy
            rw [if_neg (hkeys y hy)]
            exact (hs.pending.mem y).mp (List.mem_cons_of_mem _ hy)
          · rintro ⟨hrow, hleft⟩
            split at hrow
            · rw [hd, Option.map_some, Option.some.injEq] at hrow
              rw [← hrow] at hleft
              cases hleft
            · rename_i hne
              rcases List.mem_cons.mp ((hs.pending.mem y).mpr ⟨hrow, hleft⟩) with rfl | hy
              · exact absurd rfl hne
              · exact hy
      · rintro t rfl
        exact hs.inv

/-- All commits are collected, and all attempts are checked. -/
structure Done (uuid : Key ↪ Nat) (w : World) (checked : Set Key) (s : State) : Prop where
  inv : Inv uuid w s
  collected : ∀ (key : Key) (d : Deployment), s.deployments[key]? = some d →
    d.commitsCollected = true
  checked : ∀ key ∈ checked, key ∈ s.runChecks

theorem collectCommits_leads {checked : Set Key} (hfaithful : Faithful w p) :
    Attempt.Leads (fun s => Inv uuid w s ∧ ∀ key ∈ checked, key ∈ s.runChecks)
      (collectCommits uuid p) (fun _ => Done uuid w checked) (Inv uuid w) := by
  intro s ⟨hinv, hchecked⟩
  by_cases hcomplete : p.complete = true
  · rw [collectCommits, if_pos hcomplete]
    refine (Attempt.Leads.each (collectDeployment_leads hfaithful) (uncollected uuid s)).mono
      (fun t h => h) (fun _ t ht => ?_) (fun t h => h) s
        ⟨hinv, pending_uncollected uuid s, hchecked⟩
    refine ⟨ht.inv, fun key d hrow => ?_, ht.checked⟩
    by_contra hleft
    have hmem := (ht.pending.mem (key, d)).mpr ⟨hrow, by simpa using hleft⟩
    cases hmem
  · rw [collectCommits, if_neg hcomplete]
    exact hinv

theorem Inv.scanned (h : Inv uuid w s) (scanned : Bool) :
    Inv uuid w { s with scanned := scanned } where
  found := h.found
  checked := h.checked
  row sha row hrow := (h.row sha row hrow).imp fun d hd => hd.congr fun _ _ => Iff.rfl
  contained := h.contained
  late k e hrow hcollected := (h.late k e hrow hcollected).congr fun _ _ => Iff.rfl

/-- The keys of the attempts that the pass sees finished. -/
def Pass.finishedKeys (p : Pass) : Set Key :=
  {key | ∃ runs, p.runs = some runs ∧ ∃ run ∈ runs, key ∈ Dora.finishedKeys run}

/-- **A pass keeps the invariant wherever it stops**; when it collects all commits, everything that
it was told of is done. -/
theorem collect_leads (source : String) (hfaithful : Faithful w p) :
    Attempt.Leads (fun s => Inv uuid w s ∧ InOrder uuid w s p) (collect uuid source p)
      (fun collected s => Inv uuid w s ∧ (collected = true → Done uuid w p.finishedKeys s))
      (Inv uuid w) := by
  intro s ⟨hinv, hok⟩
  rw [collect]
  cases hruns : p.runs with
  | none => exact hinv
  | some runs =>
      have hgoing : Going uuid w s ∅ s :=
        ⟨⟨hinv, fun _ _ => Iff.rfl, fun _ h => h, fun _ h => h⟩, fun _ h => by cases h⟩
      have hchecks := each_leads runs ∅ (fun run hrun checked => checkRun_leads source hfaithful
        hok hruns hrun) s hgoing
      -- wherever the pass stops, it stops in a state with the invariant
      cases hloop : Attempt.each (checkRun source p) runs s with
      | mk r t =>
          rw [hloop] at hchecks
          cases r with
          | error e => simpa only [hloop] using hchecks.inv
          | ok u =>
              by_cases hgate : (recognized p s runs || t.scanned) = true
              swap
              · simp only [hloop, if_neg hgate]
                exact hchecks.1.inv
              have hchecked : ∀ key ∈ p.finishedKeys, key ∈ t.runChecks := by
                rintro key ⟨runs', hruns', hkey⟩
                cases hruns.symm.trans hruns'
                exact hchecks.2 key (Or.inr hkey)
              have hcommits := collectCommits_leads hfaithful t ⟨hchecks.1.inv, hchecked⟩
              cases hcollect : collectCommits uuid p t with
              | mk outcome v =>
                  rw [hcollect] at hcommits
                  have hinvAfter : Inv uuid w v := by
                    cases outcome with
                    | error e => exact hcommits
                    | ok _ => exact hcommits.inv
                  cases hstored : p.stores .scanned with
                  | false =>
                      simp only [hloop, if_pos hgate, hcollect, hstored]
                      exact hinvAfter
                  | true =>
                      simp only [hloop, if_pos hgate, hcollect, hstored]
                      refine ⟨hinvAfter.scanned true, fun hall => ?_⟩
                      cases outcome with
                      | error e => cases hall
                      | ok _ =>
                          exact ⟨hinvAfter.scanned true, hcommits.collected, hcommits.checked⟩

/-! ## Every schedule -/

theorem Complete.mem_finishedKeys (h : Complete w p) (hkey : key ∈ w.attempts) :
    key ∈ p.finishedKeys := by
  obtain ⟨run, attempt, ⟨runs, hruns, hrun, hrelevant, hattempt⟩, rfl, hfinished⟩ := h key hkey
  exact ⟨runs, hruns, run, hrun, hrelevant, attempt, hattempt, hfinished, rfl⟩

theorem Done.evidence (h : Done uuid w p.finishedKeys s) (hcomplete : Complete w p) :
    Evidence uuid w s where
  deployments key d := by
    constructor
    · intro hrow
      obtain ⟨hattempt, htime, hrevision, hurl⟩ := h.inv.found key d hrow
      exact ⟨hattempt, htime, hrevision, hurl, h.collected key d hrow⟩
    · rintro ⟨hattempt, htime, hrevision, hurl, hcollected⟩
      have hmem := h.inv.checked key (h.checked key (hcomplete.mem_finishedKeys hattempt)) _ htime
      obtain ⟨e, he⟩ := Option.isSome_iff_exists.mp
        (Std.ExtTreeMap.mem_iff_isSome_getElem?.mp hmem)
      obtain ⟨-, htime', hrevision', hurl'⟩ := h.inv.found key e he
      have hsame : d.deployedAt = e.deployedAt := Option.some.inj (htime.symm.trans htime')
      have heq : d = e := by
        cases d
        cases e
        simp only [Deployment.mk.injEq]
        exact ⟨hrevision.trans hrevision'.symm, hsame, hurl.trans hurl'.symm,
          hcollected.trans (h.collected key _ he).symm⟩
      rw [heq, he]
  commits sha row := by
    refine ⟨h.inv.row sha row, fun ⟨d, hd⟩ => ?_⟩
    have hmem := h.inv.contained _ d hd.collected sha hd.contains
    obtain ⟨old, hold⟩ := Option.isSome_iff_exists.mp
      (Std.ExtTreeMap.mem_iff_isSome_getElem?.mp hmem)
    obtain ⟨e, he⟩ := h.inv.row sha old hold
    -- there is one first deployment
    have hrank : rank uuid (row.deployment, d) = rank uuid (old.deployment, e) :=
      le_antisymm (hd.first _ e he.collected he.contains) (he.first _ d hd.collected hd.contains)
    have hkey : row.deployment = old.deployment :=
      uuid.injective (congrArg (fun r => (ofLex r).2) hrank)
    have hde : d = e := Option.some.inj (hd.collected.1.symm.trans (hkey ▸ he.collected.1))
    have hbaseline : row.baseline = old.baseline :=
      Bool.eq_iff_iff.mpr (hd.baseline.trans (hde ▸ he.baseline.symm))
    have heq : row = old := by
      cases row
      cases old
      simp only [CommitRow.mk.injEq]
      exact ⟨hkey, hd.committedAt.trans he.committedAt.symm, hbaseline⟩
    rw [heq, hold]

/-- The evidence leaves the tables no choice. -/
theorem Evidence.unique (h : Evidence uuid w s) (h' : Evidence uuid w t) :
    s.deployments = t.deployments ∧ s.commits = t.commits := by
  have hdeployments : s.deployments = t.deployments := by
    refine Table.ext fun key => Option.ext fun d => ?_
    rw [h.deployments, h'.deployments]
  have hcollected : ∀ k e, Collected s k e ↔ Collected t k e := fun k e => by
    rw [Collected, Collected, hdeployments]
  refine ⟨hdeployments, Table.ext fun sha => Option.ext fun row => ?_⟩
  rw [h.commits, h'.commits]
  exact ⟨fun ⟨d, hd⟩ => ⟨d, hd.congr fun k e => (hcollected k e).symm⟩,
    fun ⟨d, hd⟩ => ⟨d, hd.congr hcollected⟩⟩

/-- With nothing stored there is nothing to be late for. -/
theorem inOrder_empty (hfaithful : Faithful w p) (hcomplete : Complete w p)
    (hok : InOrder uuid w s p) : InOrder uuid w .empty p where
  found key time hfinds := by
    obtain ⟨run, attempt, jobs, hlists, rfl, -, -, hjobs, htime, -⟩ := hfinds
    obtain ⟨run', attempt', hlists', hkey, hfinished⟩ :=
      hcomplete _ (hfaithful.run run attempt hlists).1
    have hfinal := hfaithful.jobs run' attempt' hlists' hfinished jobs (hkey ▸ hjobs)
    have hnone : ∀ k d, ¬ Collected .empty k d := fun k d h => by simp [Collected, State.empty] at h
    refine ⟨?_, fun k d hd => absurd hd (hnone k d), fun ⟨k, d, hd⟩ => absurd hd (hnone k d)⟩
    rw [World.deployedAt, hkey, ← hfinal]
    exact htime
  onTime := hok.onTime

theorem inv_step : Preserved (step uuid source) (fun s p => Faithful w p ∧ InOrder uuid w s p)
    (Inv uuid w) := by
  rintro s p t hinv ⟨hfaithful, hok⟩ hstep
  cases hstep
  have hpass := collect_leads source hfaithful s ⟨hinv, hok⟩
  cases hcollect : collect uuid source p s with
  | mk r t =>
      rw [hcollect] at hpass
      cases r with
      | error e => exact hpass
      | ok collected => exact hpass.1

/-- **The evidence does not depend on when it is collected**, as long as each pass finds deployments
as they will be when their attempts are finished, and none that is before all whose commits are
collected or goes before one of the same time: a last pass with everything finished leaves the
evidence of the world, as it does on empty tables. -/
theorem evidence_independent {last : Pass}
    (hrun : Transition.Run (step uuid source) (fun s p => Faithful w p ∧ InOrder uuid w s p)
      .empty s)
    (hfaithful : Faithful w last) (hok : InOrder uuid w s last) (hcomplete : Complete w last)
    (hpass : collect uuid source last s = (.ok true, t)) :
    Evidence uuid w t ∧ ∀ fresh, collect uuid source last .empty = (.ok true, fresh) →
      t.deployments = fresh.deployments ∧ t.commits = fresh.commits := by
  have hevidence : ∀ s t, Inv uuid w s → InOrder uuid w s last →
      collect uuid source last s = (.ok true, t) → Evidence uuid w t := by
    intro s t hinv hok hpass
    have hleads := collect_leads source hfaithful s ⟨hinv, hok⟩
    rw [hpass] at hleads
    exact (hleads.2 rfl).evidence hcomplete
  have hall := hevidence s t (hrun.invariant inv_step (Inv.empty uuid w)) hok hpass
  refine ⟨hall, fun fresh hfresh => hall.unique ?_⟩
  exact hevidence .empty fresh (Inv.empty uuid w) (inOrder_empty hfaithful hcomplete hok) hfresh

section Examples

def keyId : Key ↪ Nat := ⟨Encodable.encode, Encodable.encode_injective⟩

def runsUrl : String := "https://github.com/o/r/actions/runs/"

/-- A push to main. -/
def pushed (status : String) : Run :=
  ⟨1, 1, status, "push", some "main", "0123456789abcdef0123456789abcdef01234567",
    "https://github.com/o/r/actions/runs/1"⟩

/-- One run, and a history without parents. -/
def world (finalJobs : List Job) : World where
  attempts := {(1, 1)}
  finalJobs _ := finalJobs
  revision _ := (pushed "").headSha
  url _ := (pushed "").htmlUrl
  parents _ := []
  committedAt _ := 0

def pass (now : Int) (status : String) (jobs : List Job) : Pass where
  now := now
  runs := some [pushed status]
  jobs _ := some jobs
  complete := true
  log previous revision := some (if previous = some revision then [] else [(revision, 0)])
  stores _ := true

def terraform : Job := [⟨"Terraform deploy", some "success", some 5⟩]

def truenas : Job := [⟨"Deploy to TrueNAS", some "success", some 9⟩]

theorem lists_pass {now : Int} {status : String} {jobs : List Job} {run : Run} {attempt : Nat}
    (h : (pass now status jobs).Lists run attempt) : run = pushed status ∧ attempt = 1 := by
  obtain ⟨runs, hruns, hrun, -, hattempt⟩ := h
  cases hruns
  cases List.mem_singleton.mp hrun
  exact ⟨rfl, by simpa [pushed] using hattempt⟩

theorem faithful_pass {now : Int} {status : String} {jobs finalJobs : List Job}
    (h : status = "completed" → jobs = finalJobs) :
    Faithful (world finalJobs) (pass now status jobs) where
  run run attempt hlists := by
    obtain ⟨rfl, rfl⟩ := lists_pass hlists
    exact ⟨rfl, rfl, rfl⟩
  jobs run attempt hlists hfinished jobs' hjobs := by
    obtain ⟨rfl, rfl⟩ := lists_pass hlists
    cases hjobs
    rcases Bool.or_eq_true_iff.mp hfinished with hlater | hcompleted
    · exact absurd (of_decide_eq_true hlater) (lt_irrefl 1)
    · exact h (of_decide_eq_true hcompleted)
  log previous revision commits hlog := by
    cases hlog
    have hcontains : ∀ child sha, (world finalJobs).Contains child sha ↔ sha = child := by
      intro child sha
      constructor
      · intro hsha
        rcases Relation.ReflTransGen.cases_head hsha with rfl | ⟨parent, hparent, -⟩
        · rfl
        · cases hparent
      · rintro rfl
        exact Relation.ReflTransGen.refl
    simp only [hcontains]
    by_cases hsame : previous = some revision
    · rw [if_pos hsame]
      refine ⟨by simp, fun sha time => ⟨fun hmem => (by cases hmem), ?_⟩⟩
      rintro ⟨rfl, hnot, -⟩
      exact absurd rfl (hnot sha hsame)
    · rw [if_neg hsame]
      refine ⟨by simp, fun sha time => ?_⟩
      rw [List.mem_singleton, Prod.mk.injEq]
      constructor
      · rintro ⟨rfl, rfl⟩
        exact ⟨rfl, fun earlier hearlier h => hsame (h ▸ hearlier), rfl⟩
      · rintro ⟨rfl, -, htime⟩
        exact ⟨rfl, htime⟩

theorem complete_pass (now : Int) (jobs finalJobs : List Job) :
    Complete (world finalJobs) (pass now "completed" jobs) := by
  rintro key rfl
  exact ⟨pushed "completed", 1, ⟨_, rfl, List.mem_singleton_self _, rfl, by decide⟩, rfl, rfl⟩

/-- The run is seen once before its steps begin. -/
theorem evidence_independent_started :
    Evidence keyId (world [terraform])
        (collect keyId runsUrl (pass 10 "completed" [terraform]) .empty).2 ∧
      ∀ fresh, collect keyId runsUrl (pass 10 "completed" [terraform]) .empty = (.ok true, fresh) →
        (collect keyId runsUrl (pass 10 "completed" [terraform]) .empty).2.deployments =
            fresh.deployments ∧
          (collect keyId runsUrl (pass 10 "completed" [terraform]) .empty).2.commits =
            fresh.commits := by
  have hnone : ∀ k d, ¬ Collected .empty k d := fun k d h => by simp [Collected, State.empty] at h
  have hbegan : InOrder keyId (world [terraform]) .empty (pass 1 "in_progress" []) := by
    refine ⟨fun key time ⟨_, _, _, _, _, _, _, hjobs, htime, _⟩ => ?_, fun _ _ hlists h => ?_⟩
    · cases hjobs
      cases htime
    · obtain ⟨rfl, rfl⟩ := lists_pass hlists
      exact absurd h (by decide)
  have hended : InOrder keyId (world [terraform]) .empty (pass 10 "completed" [terraform]) := by
    refine ⟨fun key time ⟨_, _, _, _, _, _, _, hjobs, htime, _⟩ => ?_, fun _ _ _ _ time htime => ?_⟩
    · cases hjobs
      exact ⟨htime, fun k d hd => absurd hd (hnone k d), fun ⟨k, d, hd⟩ => absurd hd (hnone k d)⟩
    · have hfive : (world [terraform]).deployedAt (1, 1) = some 5 := by decide
      cases hfive.symm.trans htime
      decide
  have hrun : Transition.Run (step keyId runsUrl)
      (fun s p => Faithful (world [terraform]) p ∧ InOrder keyId (world [terraform]) s p)
      .empty .empty :=
    (Transition.Run.refl State.empty).snoc ⟨faithful_pass fun h => absurd h (by decide), hbegan⟩ rfl
  exact evidence_independent hrun (faithful_pass fun _ => rfl) hended (complete_pass _ _ _)
    (Prod.ext rfl rfl)

/-- A pass sees the apply before the deployment has begun, and stores its time for good. -/
theorem apply_stays :
    Faithful (world [terraform, truenas]) (pass 6 "in_progress" [terraform, []]) ∧
      Faithful (world [terraform, truenas]) (pass 10 "completed" [terraform, truenas]) ∧
      Complete (world [terraform, truenas]) (pass 10 "completed" [terraform, truenas]) ∧
      ∃ s t fresh, step keyId runsUrl .empty (pass 6 "in_progress" [terraform, []]) = some s ∧
        collect keyId runsUrl (pass 10 "completed" [terraform, truenas]) s = (.ok true, t) ∧
        collect keyId runsUrl (pass 10 "completed" [terraform, truenas]) .empty =
          (.ok true, fresh) ∧
        t.deployments ≠ fresh.deployments := by
  refine ⟨faithful_pass fun h => absurd h (by decide), faithful_pass fun _ => rfl,
    complete_pass _ _ _, _, _, _, rfl,
    Prod.ext rfl rfl, Prod.ext rfl rfl, fun h => ?_⟩
  have htime := congrArg (fun t => (t[((1, 1) : Key)]?).map (·.deployedAt)) h
  revert htime
  decide

end Examples

end Sulion.Dora
