import Mathlib.Data.Finset.Card
import Mathlib.Data.Finset.SDiff
import Sulion.Lib.Transition
import Sulion.Pty.Records

set_option autoImplicit false

/-! # Deleting a workspace

`delete_workspace` checks the sessions, the worktree and the commits of the branch, and then removes
the worktree, deletes the branch and marks the workspace, each in a step of its own. Nothing keeps
other work off in the meantime: `git worktree remove` refuses a worktree with changes, and
`git branch -D` and the last statement refuse nothing.

`deletion_loses_nothing` says what has to stay away between the checks and the effects. The commits
are known by their histories, and the calls are those without `force`.
-/

namespace Sulion.WorkspaceDeletion

open Pty Transition

variable {κ : Type} [DecidableEq κ]

/-! ## The workspace and its repository -/

structure WorkspaceRecord (κ : Type) where
  kind : String
  branchName : Option String
  mergeTarget : Option String
  baseRef : Option String
  baseSha : Option κ

inductive WorkspaceState
  | active
  | missing
  | deleted
  deriving DecidableEq

/-- What the worktree is on. -/
inductive Head (κ : Type)
  | branch (name : String)
  | detached (commit : κ)

/-- A call: the record it loaded and its option. -/
structure Deletion (κ : Type) where
  record : WorkspaceRecord κ
  deleteBranch : Bool

/-- Where the call is. -/
inductive Pc (κ : Type)
  | idle
  | loaded (d : Deletion κ)
  | counted (d : Deletion κ)
  | clean (d : Deletion κ)
  | branchSeen (d : Deletion κ) (branchExists : Bool)
  | checked (d : Deletion κ)
  | removed (d : Deletion κ)
  | branchGone

/-- What an effect found. -/
inductive Effect (κ : Type)
  | worktreeRemoved (dirty : Bool)
  | branchDeleted (tip : κ) (target : Option κ)
  | marked (active : Nat)

structure State (κ : Type) where
  record : WorkspaceRecord κ
  state : WorkspaceState
  /-- The sessions that are bound to the workspace. -/
  sessions : List PtyState
  refs : String → Option κ
  head : Head κ
  isDir : Bool
  dirty : Bool
  registered : Bool
  pc : Pc κ
  effects : List (Effect κ)

def State.active (s : State κ) : Nat := s.sessions.countP fun p => p = .live ∨ p = .orphaned

/-! ## The history check -/

def WorkspaceRecord.target (r : WorkspaceRecord κ) : Option String :=
  (r.mergeTarget.or r.baseRef).filter (· ≠ "")

/-- `git rev-list --count base..tip`; `none` when one of them is not known. -/
def revListCount (history : κ → Finset κ) (base tip : Option κ) : Option Nat :=
  match base, tip with
  | some base, some tip => some (history tip \ history base).card
  | _, _ => none

def unmergedBranchCommitCount (history : κ → Finset κ) (s : State κ) (r : WorkspaceRecord κ)
    (branch : String) : Option Nat :=
  match r.target.bind fun target => revListCount history (s.refs target) (s.refs branch) with
  | some count => some count
  | none => revListCount history r.baseSha (s.refs branch)

/-- What the branch is compared with: the merge target, or where that is not known the base. -/
def comparedWith (s : State κ) (r : WorkspaceRecord κ) : Option κ :=
  (r.target.bind s.refs).or r.baseSha

/-! ## The steps -/

/-- The next step of the call; a check that fails ends it. -/
def proceed (history : κ → Finset κ) (s : State κ) : Option (State κ) :=
  match s.pc with
  | .idle => none
  | .loaded d =>
      if d.record.kind = "worktree" ∧ s.active = 0 then some { s with pc := .counted d }
      else some { s with pc := .idle }
  | .counted d =>
      if s.isDir ∧ s.dirty then some { s with pc := .idle } else some { s with pc := .clean d }
  | .clean d =>
      some { s with pc := .branchSeen d (d.record.branchName.any fun b => (s.refs b).isSome) }
  | .branchSeen d branchExists =>
      if d.deleteBranch ∧ branchExists then
        match d.record.branchName.bind (unmergedBranchCommitCount history s d.record) with
        | some 0 => some { s with pc := .checked d }
        | _ => some { s with pc := .idle }
      else some { s with pc := .checked d }
  | .checked d =>
      if s.isDir ∨ s.registered then
        -- `git worktree remove` without `--force`
        if s.isDir ∧ s.dirty then some { s with pc := .idle }
        else some { s with
          isDir := false
          registered := false
          pc := .removed d
          effects := s.effects ++ [.worktreeRemoved (s.isDir && s.dirty)] }
      else some { s with pc := .removed d }
  | .removed d =>
      match d.record.branchName.filter fun _ => d.deleteBranch with
      | none => some { s with pc := .branchGone }
      | some branch =>
          match s.refs branch with
          | none => some { s with pc := .branchGone }
          | some tip => some { s with
              refs := Function.update s.refs branch none
              pc := .branchGone
              effects := s.effects ++ [.branchDeleted tip (comparedWith s d.record)] }
  | .branchGone => some { s with
      state := .deleted
      sessions := []
      pc := .idle
      effects := s.effects ++ [.marked s.active] }

inductive Act (κ : Type)
  | begin (deleteBranch : Bool)
  | proceed
  /-- A step of the call fails for another reason. -/
  | fail
  | edit (dirty : Bool)
  | commit (commit : κ) (dirty : Bool)
  | switchTo (name : String) (dirty : Bool)
  /-- `git switch -c`. -/
  | switchNew (name : String)
  | reconcile
  /-- A session that was bound before goes live again, or a new one is bound. -/
  | spawn (session : Nat)
  | sessionEnds (session : Nat) (state : PtyState)

def State.headCommit (s : State κ) : Option κ :=
  match s.head with
  | .branch name => s.refs name
  | .detached commit => some commit

/-- The history of a commit has that of its parent. -/
def follows (history : κ → Finset κ) (parent : Option κ) (commit : κ) : Prop :=
  ∀ old ∈ parent, history old ⊆ history commit

instance (history : κ → Finset κ) (parent : Option κ) (commit : κ) :
    Decidable (follows history parent commit) :=
  inferInstanceAs (Decidable (∀ old ∈ parent, _))

def step (history : κ → Finset κ) (s : State κ) : Act κ → Option (State κ)
  | .begin deleteBranch =>
      match s.pc with
      | .idle => some { s with pc := .loaded ⟨s.record, deleteBranch⟩ }
      | _ => none
  | .proceed => proceed history s
  | .fail => some { s with pc := .idle }
  | .edit dirty => if s.isDir then some { s with dirty := dirty } else none
  | .commit commit dirty =>
      if s.isDir ∧ follows history s.headCommit commit then
        match s.head with
        | .branch name => some { s with
            refs := Function.update s.refs name (some commit), dirty := dirty }
        | .detached _ => some { s with head := .detached commit, dirty := dirty }
      else none
  | .switchTo name dirty =>
      if s.isDir ∧ (s.refs name).isSome then some { s with head := .branch name, dirty := dirty }
      else none
  | .switchNew name =>
      if s.isDir ∧ s.refs name = none then
        some { s with refs := Function.update s.refs name s.headCommit, head := .branch name }
      else none
  | .reconcile =>
      if s.isDir then
        match s.head with
        | .branch name => some { s with record := { s.record with branchName := some name } }
        | .detached _ => some { s with record := { s.record with branchName := none } }
      else some { s with state := .missing }
  | .spawn i =>
      if i < s.sessions.length then some { s with sessions := s.sessions.set i .live }
      else some { s with sessions := s.sessions ++ [.live] }
  | .sessionEnds i state =>
      if state ≠ .live ∧ state ≠ .orphaned then some { s with sessions := s.sessions.set i state }
      else if s.sessions[i]? = some .live then some
        { s with sessions := s.sessions.set i .orphaned }
      else none

/-! ## What a deletion must not do -/

/-- The worktree had no changes, the target has the commits of the branch, no session was at work.
-/
def Effect.Harmless (history : κ → Finset κ) : Effect κ → Prop
  | .worktreeRemoved dirty => dirty = false
  | .branchDeleted tip target => ∃ base, target = some base ∧ history tip ⊆ history base
  | .marked active => active = 0

/-- The sessions have been counted. -/
def Pc.hasCounted : Pc κ → Bool
  | .idle | .loaded _ => false
  | _ => true

/-- The commits of the branch have been counted, or the branch was not there. -/
def Pc.hasCompared : Pc κ → Option (Deletion κ)
  | .branchSeen d false | .checked d | .removed d => some d
  | _ => none

/-- The branch that a commit moves or a switch creates. -/
def Act.writes (s : State κ) : Act κ → Option String
  | .commit _ _ => match s.head with
      | .branch name => some name
      | .detached _ => none
  | .switchNew name => some name
  | _ => none

/-- Between its check and its deletion the branch is neither moved nor created, and neither is a
target created that was not known; no session is bound after the sessions have been counted. -/
structure InOrder (s : State κ) (a : Act κ) : Prop where
  branch : ∀ d name, s.pc.hasCompared = some d → d.deleteBranch = true → a.writes s = some name →
    d.record.branchName ≠ some name ∧ (d.record.target = some name → (s.refs name).isSome = true)
  spawn : s.pc.hasCounted = true → ∀ session, a ≠ .spawn session

/-- The target has the commits of the branch that is to be deleted. -/
def Merged (history : κ → Finset κ) (s : State κ) (d : Deletion κ) : Prop :=
  ∀ branch tip, d.record.branchName = some branch → s.refs branch = some tip →
    ∃ base, comparedWith s d.record = some base ∧ history tip ⊆ history base

structure Inv (history : κ → Finset κ) (s : State κ) : Prop where
  effects : ∀ e ∈ s.effects, e.Harmless history
  sessions : s.pc.hasCounted = true → s.active = 0
  merged : ∀ d, s.pc.hasCompared = some d → d.deleteBranch = true → Merged history s d

variable {history : κ → Finset κ} {s t : State κ} {a : Act κ}

theorem merged_of_count {d : Deletion κ}
    (h : d.record.branchName.bind (unmergedBranchCommitCount history s d.record) = some 0) :
    Merged history s d := by
  intro branch tip hbranch htip
  rw [hbranch, Option.bind_some, unmergedBranchCommitCount, htip] at h
  -- without a count against the target its name is not known
  have hcount : ∀ base, revListCount history (some base) (some tip) = some 0 →
      history tip ⊆ history base := fun base hzero => by
    rw [revListCount, Option.some.injEq, Finset.card_eq_zero] at hzero
    exact Finset.sdiff_eq_empty_iff_subset.mp hzero
  cases htarget : d.record.target.bind s.refs with
  | some base =>
      obtain ⟨target, hname, hbase⟩ := Option.bind_eq_some_iff.mp htarget
      rw [hname, Option.bind_some, hbase] at h
      exact ⟨base, by rw [comparedWith, htarget, Option.some_or], hcount base h⟩
  | none =>
      have hnone : (d.record.target.bind fun target =>
          revListCount history (s.refs target) (some tip)) = none := by
        cases hname : d.record.target with
        | none => rfl
        | some target =>
            rw [hname, Option.bind_some] at htarget
            rw [Option.bind_some, htarget]
            rfl
      rw [hnone] at h
      cases hsha : d.record.baseSha with
      | none =>
          rw [hsha] at h
          cases h
      | some base =>
          rw [hsha] at h
          exact ⟨base, by rw [comparedWith, htarget, Option.none_or, hsha], hcount base h⟩

/-- The target may move forward, as long as the branch stays. -/
theorem Merged.update {d : Deletion κ} (h : Merged history s d) {name : String} {commit : Option κ}
    (hbranch : d.record.branchName ≠ some name)
    (htarget : d.record.target = some name → ∃ old new, s.refs name = some old ∧
      commit = some new ∧ history old ⊆ history new)
        (hrefs : t.refs = Function.update s.refs name commit) :
    Merged history t d := by
  intro branch tip hname htip
  have hne : branch ≠ name := fun hsame => hbranch (hsame ▸ hname)
  rw [hrefs, Function.update_of_ne hne] at htip
  obtain ⟨base, hbase, hsub⟩ := h branch tip hname htip
  rw [comparedWith] at hbase ⊢
  by_cases hsame : d.record.target = some name
  · obtain ⟨old, new, hold, rfl, hforward⟩ := htarget hsame
    rw [hsame, Option.bind_some, hold, Option.some_or, Option.some.injEq] at hbase
    subst hbase
    refine ⟨new, ?_, hsub.trans hforward⟩
    rw [hsame, Option.bind_some, hrefs, Function.update_self, Option.some_or]
  · refine ⟨base, ?_, hsub⟩
    rw [← hbase, hrefs]
    congr 1
    cases htgt : d.record.target with
    | none => rfl
    | some target =>
        have hother : target ≠ name := fun heq => hsame (heq ▸ htgt)
        rw [Option.bind_some, Option.bind_some, Function.update_of_ne hother]

theorem active_eq_zero_iff : s.active = 0 ↔ ∀ p ∈ s.sessions, p ≠ .live ∧ p ≠ .orphaned := by
  simp [State.active, List.countP_eq_zero]

/-- A step that leaves the call, the bound sessions and the branches as they are. -/
theorem Inv.frame (hinv : Inv history s) (hpc : t.pc = s.pc) (hsessions : t.sessions = s.sessions)
    (hrefs : t.refs = s.refs) (heffects : t.effects = s.effects) : Inv history t where
  effects := heffects ▸ hinv.effects
  sessions := fun h => by
    rw [State.active, hsessions]
    exact hinv.sessions (hpc ▸ h)
  merged := fun d hd hdelete branch tip hbranch htip => by
    rw [comparedWith, hrefs]
    exact hinv.merged d (hpc ▸ hd) hdelete branch tip hbranch (hrefs ▸ htip)

/-- A commit or a new branch, away from the branch that is to be deleted. -/
theorem Inv.write (hinv : Inv history s) (hok : InOrder s a) {name : String} (commit : Option κ)
    (hwrites : a.writes s = some name) (hforward : ∀ old, s.refs name = some old →
      ∃ new, commit = some new ∧ history old ⊆ history new) (hpc : t.pc = s.pc)
    (hsessions : t.sessions = s.sessions) (hrefs : t.refs = Function.update s.refs name commit)
    (heffects : t.effects = s.effects) : Inv history t where
  effects := heffects ▸ hinv.effects
  sessions := fun h => by
    rw [State.active, hsessions]
    exact hinv.sessions (hpc ▸ h)
  merged := fun d hd hdelete => by
    rw [hpc] at hd
    obtain ⟨hbranch, htarget⟩ := hok.branch d name hd hdelete hwrites
    refine (hinv.merged d hd hdelete).update hbranch (fun hsame => ?_) hrefs
    obtain ⟨old, hold⟩ := Option.isSome_iff_exists.mp (htarget hsame)
    obtain ⟨new, hnew, hsub⟩ := hforward old hold
    exact ⟨old, new, hold, hnew, hsub⟩

/-- The call goes on, or ends with a check that fails. -/
theorem inv_proceed (hinv : Inv history s) (h : proceed history s = some t) : Inv history t := by
  have hidle : Inv history { s with pc := .idle } :=
    ⟨hinv.effects, fun h => (by cases h), fun d hd => by cases hd⟩
  unfold proceed at h
  -- one case for each program counter, from `idle` to `branchGone`
  split at h
  · cases h
  · split at h <;> cases h
    · -- the sessions are counted here
      rename_i hcounted
      exact ⟨hinv.effects, fun _ => hcounted.2, fun d hd => by cases hd⟩
    · exact hidle
  · rename_i hpc
    split at h <;> cases h
    · exact hidle
    · exact ⟨hinv.effects, fun _ => hinv.sessions (by rw [hpc]; rfl), fun d hd => by cases hd⟩
  · rename_i d hpc
    cases h
    refine ⟨hinv.effects, fun _ => hinv.sessions (by rw [hpc]; rfl),
      fun d' hd _ branch tip hbranch htip => ?_⟩
    -- a branch that is there is compared in the next step
    have hseen : (d.record.branchName.any fun b => (s.refs b).isSome) = false ∧ d = d' := by
      cases hexists : d.record.branchName.any fun b => (s.refs b).isSome with
      | true =>
          rw [hexists] at hd
          cases hd
      | false =>
          rw [hexists] at hd
          exact ⟨rfl, Option.some.inj hd⟩
    obtain ⟨hnone, rfl⟩ := hseen
    rw [hbranch, Option.any_some] at hnone
    have htip : s.refs branch = some tip := htip
    rw [htip] at hnone
    cases hnone
  · rename_i d branchExists hpc
    have hcounted := hinv.sessions (by rw [hpc]; rfl)
    split at h
    · split at h <;> cases h
      · rename_i hzero
        -- no commit of the branch is missing in the target
        refine ⟨hinv.effects, fun _ => hcounted, fun d' hd _ => ?_⟩
        cases hd
        exact merged_of_count hzero
      · exact hidle
    · rename_i hskipped
      cases h
      refine ⟨hinv.effects, fun _ => hcounted, fun d' hd hdelete => ?_⟩
      cases hd
      refine hinv.merged d ?_ hdelete
      have hnone : branchExists = false := by
        by_contra hexists
        exact hskipped ⟨hdelete, by simpa using hexists⟩
      rw [hpc, hnone]
      rfl
  · rename_i d hpc
    -- what was compared before the worktree goes holds after it
    have hmerged : ∀ d', d = d' → d'.deleteBranch = true → Merged history s d' := fun d' hd =>
      hinv.merged d' (by rw [hpc, ← hd]; rfl)
    have hcounted := hinv.sessions (by rw [hpc]; rfl)
    split at h
    · split at h <;> cases h
      · exact hidle
      · rename_i hclean
        refine ⟨fun e he => ?_, fun _ => hcounted, fun d' hd => hmerged d' (Option.some.inj hd)⟩
        rcases List.mem_append.mp he with hold | hnew
        · exact hinv.effects e hold
        · rw [List.mem_singleton.mp hnew]
          show (s.isDir && s.dirty) = false
          simpa using hclean
    · cases h
      exact ⟨hinv.effects, fun _ => hcounted, fun d' hd => hmerged d' (Option.some.inj hd)⟩
  · rename_i d hpc
    have hcounted := hinv.sessions (by rw [hpc]; rfl)
    split at h
    · cases h
      exact ⟨hinv.effects, fun _ => hcounted, fun d' hd => by cases hd⟩
    · rename_i branch hbranch
      obtain ⟨hbranch, hdelete⟩ := Option.filter_eq_some_iff.mp hbranch
      split at h <;> cases h
      · exact ⟨hinv.effects, fun _ => hcounted, fun d' hd => by cases hd⟩
      · rename_i tip htip
        refine ⟨fun e he => ?_, fun _ => hcounted, fun d' hd => by cases hd⟩
        rcases List.mem_append.mp he with hold | hnew
        · exact hinv.effects e hold
        · rw [List.mem_singleton.mp hnew]
          exact hinv.merged d (by rw [hpc]; rfl) hdelete branch tip hbranch htip
  · rename_i hpc
    have hcounted := hinv.sessions (by rw [hpc]; rfl)
    cases h
    refine ⟨fun e he => ?_, fun h => (by cases h), fun d' hd => by cases hd⟩
    rcases List.mem_append.mp he with hold | hnew
    · exact hinv.effects e hold
    · rw [List.mem_singleton.mp hnew]
      exact hcounted

theorem inv_step : Preserved (step history) InOrder (Inv history) := by
  intro s a t hinv hok h
  cases a with
  | begin deleteBranch =>
      simp only [step] at h
      split at h <;> cases h
      exact ⟨hinv.effects, fun h => (by cases h), fun d hd => by cases hd⟩
  | proceed => exact inv_proceed hinv h
  | fail =>
      cases h
      exact ⟨hinv.effects, fun h => (by cases h), fun d hd => by cases hd⟩
  | edit dirty =>
      simp only [step] at h
      split at h <;> cases h
      exact hinv.frame rfl rfl rfl rfl
  | commit commit dirty =>
      simp only [step] at h
      split at h
      swap
      · cases h
      rename_i hcommit
      split at h <;> cases h
      · rename_i name hhead
        refine hinv.write hok (some commit) ?_
          (fun old hold => ?_) rfl rfl rfl rfl
        · rw [Act.writes, hhead]
        · refine ⟨commit, rfl, hcommit.2 old ?_⟩
          rw [State.headCommit, hhead]
          exact hold
      · exact hinv.frame rfl rfl rfl rfl
  | switchTo name dirty =>
      simp only [step] at h
      split at h <;> cases h
      exact hinv.frame rfl rfl rfl rfl
  | switchNew name =>
      simp only [step] at h
      split at h <;> cases h
      rename_i hnew
      refine hinv.write hok _ rfl (fun old hold => ?_) rfl rfl rfl rfl
      rw [hnew.2] at hold
      cases hold
  | reconcile =>
      simp only [step] at h
      split at h
      · split at h <;> cases h
        · exact hinv.frame rfl rfl rfl rfl
        · exact hinv.frame rfl rfl rfl rfl
      · cases h
        exact hinv.frame rfl rfl rfl rfl
  | spawn i =>
      -- a session is bound before the count only, and what is compared is counted
      have hfree : s.pc.hasCounted ≠ true := fun hcounted => hok.spawn hcounted i rfl
      have hcompared : ∀ d, s.pc.hasCompared ≠ some d := by
        intro d hd
        cases hpc : s.pc <;> simp_all [Pc.hasCounted, Pc.hasCompared]
      simp only [step] at h
      split at h <;> cases h
      · exact ⟨hinv.effects, fun h => absurd h hfree, fun d hd => absurd hd (hcompared d)⟩
      · exact ⟨hinv.effects, fun h => absurd h hfree, fun d hd => absurd hd (hcompared d)⟩
  | sessionEnds i state =>
      have hset : ∀ p, (s.pc.hasCounted = true → p ≠ .live ∧ p ≠ .orphaned) →
          Inv history { s with sessions := s.sessions.set i p } := by
        intro p hp
        refine ⟨hinv.effects, fun hcounted => active_eq_zero_iff.mpr fun q hq => ?_, hinv.merged⟩
        rcases List.mem_or_eq_of_mem_set hq with hold | rfl
        · exact active_eq_zero_iff.mp (hinv.sessions hcounted) q hold
        · exact hp hcounted
      simp only [step] at h
      split at h
      · rename_i hended
        cases h
        exact hset state fun _ => hended
      · split at h <;> cases h
        rename_i hlive
        refine hset .orphaned fun hcounted => ?_
        exact absurd rfl
          (active_eq_zero_iff.mp (hinv.sessions hcounted) .live (List.mem_of_getElem? hlive)).1

/-- **Deleting a workspace without force** loses nothing, as long as nobody commits to its branch or
creates it once it has been compared, nor creates a target that was not known, and no session is
bound once the sessions have been counted: each worktree that is removed has no changes, each branch
that is deleted is in its target, and the workspace is marked without a session at work. -/
theorem deletion_loses_nothing (hstart : s.pc = .idle ∧ s.effects = [])
    (hrun : Run (step history) InOrder s t) : ∀ e ∈ t.effects, e.Harmless history := by
  refine (hrun.invariant inv_step ⟨fun e he => ?_, fun h => ?_, fun d hd => ?_⟩).effects
  · rw [hstart.2] at he
    cases he
  · rw [hstart.1] at h
    cases h
  · rw [hstart.1] at hd
    cases hd

section Examples

/-- Commit `n` comes after those below it. -/
def linear (n : Nat) : Finset Nat := Finset.range (n + 1)

/-- A worktree on a branch that has been merged. -/
def mergedWorkspace : State Nat where
  record := ⟨"worktree", some "topic", some "main", none, some 0⟩
  state := .active
  sessions := []
  refs := fun name => if name = "main" ∨ name = "topic" then some 1 else none
  head := .branch "topic"
  isDir := true
  dirty := false
  registered := true
  pc := .idle
  effects := []

def undisturbed : List (Act Nat) := .begin true :: List.replicate 7 .proceed

/-- A commit comes after the history check, and a session is bound before the workspace is marked.
-/
def disturbed : List (Act Nat) :=
  .begin true :: List.replicate 4 .proceed ++ [.commit 2 false, .proceed, .proceed, .spawn 0,
    .proceed]

def after (acts : List (Act Nat)) : State Nat :=
  (runList (step linear) mergedWorkspace acts).getD mergedWorkspace

theorem deletion_loses_nothing_undisturbed :
    runList (step linear) mergedWorkspace undisturbed = some (after undisturbed) ∧
      ∀ e ∈ (after undisturbed).effects, e.Harmless linear := by
  have hquiet : ∀ a ∈ undisturbed, ∀ s : State Nat, InOrder s a := by
    intro a ha s
    rcases List.mem_cons.mp ha with rfl | ha
    · exact ⟨fun _ _ _ _ h => (by cases h), fun _ _ h => (by cases h)⟩
    · rw [List.eq_of_mem_replicate ha]
      exact ⟨fun _ _ _ _ h => (by cases h), fun _ _ h => (by cases h)⟩
  have hrun : Run (step linear) InOrder mergedWorkspace (after undisturbed) :=
    Run.of_allowed undisturbed hquiet rfl
  exact ⟨rfl, deletion_loses_nothing ⟨rfl, rfl⟩ hrun⟩

theorem disturbed_loses_work :
    Run (step linear) anyStep mergedWorkspace (after disturbed) ∧
      (after disturbed).effects = [.worktreeRemoved false, .branchDeleted 2 (some 1), .marked 1] ∧
      ¬ ∀ e ∈ (after disturbed).effects, e.Harmless linear := by
  have heffects : (after disturbed).effects =
      [.worktreeRemoved false, .branchDeleted 2 (some 1), .marked 1] := rfl
  refine ⟨Run.of_runList disturbed rfl, heffects, fun h => ?_⟩
  have hmarked : Effect.Harmless linear (.marked 1) := h (.marked 1) (by rw [heffects]; simp)
  exact one_ne_zero hmarked

end Examples

end Sulion.WorkspaceDeletion
