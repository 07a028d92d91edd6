import Sulion.RepoLifecycle
import Sulion.Rust.Text

set_option autoImplicit false

/-! # Meta-repositories

A meta-repository groups repositories, and one of them is its primary repository. Five operations
write the two tables, each in a transaction: a statement that a constraint refuses rolls it back.
-/

namespace Sulion.MetaRepos

open Rust Transition

/-! ## The tables -/

/-- A row of `meta_repos`. -/
structure MetaRepo where
  id : Uuid
  name : String
  primaryRepoName : String
  deriving DecidableEq

/-- The rows of `meta_repos` and of `meta_repo_members`. -/
structure Store where
  metaRepos : List MetaRepo
  members : List (Uuid × String)
  deriving DecidableEq

def Store.empty : Store := ⟨[], []⟩

inductive MetaRepoError
  | notFound
  | badRequest (message : String)
  | db
  deriving DecidableEq

/-- What the database and the standard library do with case and order: `LOWER`, the order that
`ORDER BY LOWER(repo_name), repo_name` gives, and `to_lowercase`. -/
structure Collation where
  lower : String → String
  before : String → String → Bool
  toLowercase : String → String

structure SaveMetaRepoInput where
  name : String
  members : List String
  primaryRepoName : String

structure MetaRepoMemberView where
  repoName : String
  present : Bool

structure MetaRepoView where
  id : Uuid
  name : String
  primaryRepoName : String
  members : List MetaRepoMemberView

def orderBy (c : Collation) (names : List String) : List String :=
  names.insertionSort fun a b => c.before a b = true

/-- `get`, with the repositories of `repo_runtime_state` that exist. -/
def get (c : Collation) (existing : String → Bool) (s : Store) (id : Uuid) :
    Except MetaRepoError MetaRepoView :=
  match s.metaRepos.find? fun group => group.id = id with
  | some group => .ok
      { id := group.id
        name := group.name
        primaryRepoName := group.primaryRepoName
        members := (orderBy c ((s.members.filter fun m => m.1 = group.id).map (·.2))).map
          fun repo => ⟨repo, existing repo⟩ }
  | none => .error .notFound

/-! ## The input -/

def maxNameChars : Nat := 80

/-- `char::is_control`. -/
def isControl (c : Char) : Bool := c.toNat < 0x20 || (0x7F ≤ c.toNat && c.toNat ≤ 0x9F)

def validateName (raw : String) : Except MetaRepoError String :=
  let name := trim raw
  if name.toList = [] then .error (.badRequest "meta-repository name must not be empty")
  else if maxNameChars < name.toList.length then
    .error (.badRequest s!"meta-repository name must be at most {maxNameChars} characters")
  else if name.toList.any isControl then
    .error (.badRequest "meta-repository name must not contain control characters")
  else .ok name

/-- The loop over the members, with those seen so far. -/
def collectMembers (seen : List String) : List String → Except MetaRepoError (List String)
  | [] => .ok seen
  | raw :: rest =>
      let repo := trim raw
      if !RepoLifecycle.isValidRepoName repo then .error
        (.badRequest s!"invalid repository name: {repo}")
      else if repo ∈ seen then .error (.badRequest s!"duplicate repository: {repo}")
      else collectMembers (seen ++ [repo]) rest

def normalizeInput (c : Collation) (input : SaveMetaRepoInput) :
    Except MetaRepoError (String × List String × String) := do
  let name ← validateName input.name
  let members ← collectMembers [] input.members
  if members = [] then
    .error (.badRequest "meta-repository requires at least one repository")
  else
    let members := members.insertionSort fun a b => c.toLowercase a ≤ c.toLowercase b
    let primaryRepoName := trim input.primaryRepoName
    if primaryRepoName ∈ members then .ok (name, members, primaryRepoName)
    else .error (.badRequest "primary repository must be a member")

/-! ## The checks -/

def ensureNameAvailable (c : Collation) (s : Store) (name : String) (exceptId : Option Uuid) :
    Except MetaRepoError Unit :=
  if s.metaRepos.any fun group =>
      c.lower group.name = c.lower name && exceptId.all (group.id ≠ ·) then
    .error (.badRequest s!"meta-repository name is already in use: {name}")
  else .ok ()

def ensureReposExist (existing : String → Bool) (members : List String) :
    Except MetaRepoError Unit :=
  let missing := members.filter fun repo => !existing repo
  if missing ≠ [] then
    .error (.badRequest ("repository not found: " ++ ", ".intercalate missing))
  else .ok ()

def ensureMembersAvailable (c : Collation) (s : Store) (members : List String)
    (exceptId : Option Uuid) : Except MetaRepoError Unit :=
  let assigned := orderBy c ((s.members.filter fun m =>
    m.2 ∈ members && exceptId.all (m.1 ≠ ·)).map (·.2))
  if assigned ≠ [] then
    .error (.badRequest
      ("repository already belongs to a meta-repository: " ++ ", ".intercalate assigned))
  else .ok ()

/-! ## The statements -/

/-- A repository is in one group. -/
def insertMembers (s : Store) (groupId : Uuid) : List String → Except MetaRepoError Store
  | [] => .ok s
  | repo :: rest =>
      if repo ∈ s.members.map (·.2) then .error .db
      else insertMembers { s with members := s.members ++ [(groupId, repo)] } groupId rest

/-- The identifiers are distinct, and the names without regard to case. -/
def insertGroup (c : Collation) (s : Store) (group : MetaRepo) : Except MetaRepoError Store :=
  if s.metaRepos.any fun g => g.id = group.id || c.lower g.name = c.lower group.name then .error .db
  else .ok { s with metaRepos := s.metaRepos ++ [group] }

/-- The name of another group is refused. -/
def updateGroup (c : Collation) (s : Store) (group : MetaRepo) : Except MetaRepoError Store :=
  if s.metaRepos.any fun g => g.id ≠ group.id && c.lower g.name = c.lower group.name then .error .db
  else .ok { s with metaRepos := s.metaRepos.map fun g => if g.id = group.id then group else g }

/-- The members go with their group. -/
def deleteGroup (s : Store) (id : Uuid) : Store where
  metaRepos := s.metaRepos.filter fun g => g.id ≠ id
  members := s.members.filter fun m => m.1 ≠ id

/-! ## The operations -/

/-- `Uuid::new_v4` gives `id`. -/
def create (c : Collation) (existing : String → Bool) (id : Uuid) (input : SaveMetaRepoInput)
    (s : Store) : Except MetaRepoError Store := do
  let (name, members, primaryRepoName) ← normalizeInput c input
  ensureNameAvailable c s name none
  ensureReposExist existing members
  ensureMembersAvailable c s members none
  let s ← insertGroup c s ⟨id, name, primaryRepoName⟩
  insertMembers s id members

def update (c : Collation) (existing : String → Bool) (id : Uuid) (input : SaveMetaRepoInput)
    (s : Store) : Except MetaRepoError Store := do
  let (name, members, primaryRepoName) ← normalizeInput c input
  if s.metaRepos.any fun g => g.id = id then
    ensureNameAvailable c s name (some id)
    ensureReposExist existing members
    ensureMembersAvailable c s members (some id)
    let s ← insertMembers { s with members := s.members.filter fun m => m.1 ≠ id } id members
    updateGroup c s ⟨id, name, primaryRepoName⟩
  else .error .notFound

def delete (id : Uuid) (s : Store) : Except MetaRepoError Store :=
  if s.metaRepos.any fun g => g.id = id then .ok (deleteGroup s id) else .error .notFound

def renamed (oldName newName name : String) : String := if name = oldName then newName else name

/-- The new name of a member must not be one of another member. -/
def renameRepoReferences (oldName newName : String) (s : Store) : Except MetaRepoError Store :=
  if oldName ∈ s.members.map (·.2) ∧ oldName ≠ newName ∧ newName ∈ s.members.map (·.2) then
    .error .db
  else
    .ok
      { metaRepos := s.metaRepos.map fun g =>
          { g with primaryRepoName := renamed oldName newName g.primaryRepoName }
        members := s.members.map fun m => (m.1, renamed oldName newName m.2) }

def removeRepoMembership (c : Collation) (repoName : String) (s : Store) :
    Except MetaRepoError Store :=
  match s.members.find? fun m => m.2 = repoName with
  | none => .ok s
  | some (groupId, _) =>
      match s.metaRepos.find? fun g => g.id = groupId with
      | none => .ok s
      | some group =>
          let rest := s.members.filter fun m => m.2 ≠ repoName
          match (orderBy c ((rest.filter fun m => m.1 = groupId).map (·.2))).head? with
          | none => .ok (deleteGroup { s with members := rest } groupId)
          | some nextPrimary =>
              if group.primaryRepoName = repoName then
                .ok
                  { metaRepos := s.metaRepos.map fun g =>
                      if g.id = groupId then { g with primaryRepoName := nextPrimary } else g
                    members := rest }
              else .ok { s with members := rest }

/-! ## Calls -/

/-- A call, with what it finds of the repositories. -/
inductive Call
  | create (existing : String → Bool) (id : Uuid) (input : SaveMetaRepoInput)
  | update (existing : String → Bool) (id : Uuid) (input : SaveMetaRepoInput)
  | delete (id : Uuid)
  | renameRepoReferences (oldName newName : String)
  | removeRepoMembership (repoName : String)

def Call.transaction (c : Collation) : Call → Store → Except MetaRepoError Store
  | .create existing id input => MetaRepos.create c existing id input
  | .update existing id input => MetaRepos.update c existing id input
  | .delete id => MetaRepos.delete id
  | .renameRepoReferences oldName newName => MetaRepos.renameRepoReferences oldName newName
  | .removeRepoMembership repoName => MetaRepos.removeRepoMembership c repoName

/-- What the caller gets after the commit. -/
def Call.answer (c : Collation) (t : Store) : Call → Except MetaRepoError (Option MetaRepoView)
  | .create existing id _ | .update existing id _ => some <$> get c existing t id
  | _ => .ok none

/-- A call: its transaction, and then the view of the group. -/
def Call.run (c : Collation) (call : Call) (s : Store) :
    Except MetaRepoError (Option MetaRepoView) × Store :=
  match call.transaction c s with
  | .ok t => (call.answer c t, t)
  | .error e => (.error e, s)

def step (c : Collation) (s : Store) (call : Call) : Option Store := some (call.run c s).2

/-- A repository is renamed to a name that no group has. -/
def FreshName (s : Store) : Call → Prop
  | .renameRepoReferences _ newName => newName ∉ s.members.map (·.2)
  | _ => True

instance (s : Store) : (call : Call) → Decidable (FreshName s call)
  | .renameRepoReferences _ newName => inferInstanceAs (Decidable (newName ∉ s.members.map (·.2)))
  | .create .. | .update .. | .delete .. | .removeRepoMembership .. => .isTrue trivial

/-! ## Well-formed groups -/

structure WellFormed (c : Collation) (s : Store) : Prop where
  hasMember : ∀ g ∈ s.metaRepos, ∃ m ∈ s.members, m.1 = g.id
  primary : ∀ g ∈ s.metaRepos, (g.id, g.primaryRepoName) ∈ s.members
  oneGroup : (s.members.map (·.2)).Nodup
  names : (s.metaRepos.map fun g => c.lower g.name).Nodup

/-- What the foreign key and the primary key add. -/
structure Inv (c : Collation) (s : Store) : Prop extends WellFormed c s where
  ids : (s.metaRepos.map (·.id)).Nodup
  group : ∀ m ∈ s.members, ∃ g ∈ s.metaRepos, g.id = m.1

variable {c : Collation} {s t : Store} {id : Uuid} {existing : String → Bool}
  {input : SaveMetaRepoInput} {name primaryRepoName : String} {members : List String}

/-- The primary repository is the member that a group has. -/
theorem Inv.of_primary (hprimary : ∀ g ∈ s.metaRepos, (g.id, g.primaryRepoName) ∈ s.members)
    (hone : (s.members.map (·.2)).Nodup) (hnames : (s.metaRepos.map fun g => c.lower g.name).Nodup)
    (hids : (s.metaRepos.map (·.id)).Nodup)
    (hgroup : ∀ m ∈ s.members, ∃ g ∈ s.metaRepos, g.id = m.1) : Inv c s where
  hasMember := fun g hg => ⟨_, hprimary g hg, rfl⟩
  primary := hprimary
  oneGroup := hone
  names := hnames
  ids := hids
  group := hgroup

theorem Inv.empty : Inv c .empty :=
  .of_primary (by simp [Store.empty]) List.nodup_nil List.nodup_nil List.nodup_nil
    (by simp [Store.empty])

theorem ok_of_bind {α β : Type} {x : Except MetaRepoError α} {f : α → Except MetaRepoError β}
    {b : β} (h : (x >>= f) = .ok b) : ∃ a, x = .ok a ∧ f a = .ok b := by
  cases x with
  | error e => cases h
  | ok a => exact ⟨a, rfl, h⟩

/-! ## What the functions tell -/

theorem nodup_of_collectMembers {seen raws : List String}
    (h : collectMembers seen raws = .ok members) (hseen : seen.Nodup) : members.Nodup := by
  induction raws generalizing seen with
  | nil =>
      cases h
      exact hseen
  | cons raw rest ih =>
      simp only [collectMembers] at h
      split at h
      · cases h
      · split at h
        · cases h
        · rename_i hfresh
          exact ih h (hseen.append (List.nodup_singleton _) (by simpa using hfresh))

theorem of_normalizeInput (h : normalizeInput c input = .ok (name, members, primaryRepoName)) :
    members.Nodup ∧ primaryRepoName ∈ members := by
  obtain ⟨name', -, h⟩ := ok_of_bind h
  obtain ⟨collected, hcollected, h⟩ := ok_of_bind h
  split at h
  · cases h
  · simp only at h
    split at h
    · rename_i hprimary
      cases h
      exact ⟨(List.perm_insertionSort _ _).nodup_iff.mpr
        (nodup_of_collectMembers hcollected List.nodup_nil), hprimary⟩
    · cases h

theorem of_insertMembers {groupId : Uuid} (h : insertMembers s groupId members = .ok t)
    (hone : (s.members.map (·.2)).Nodup) :
    t.metaRepos = s.metaRepos ∧ t.members = s.members ++ members.map (groupId, ·) ∧
      (t.members.map (·.2)).Nodup := by
  induction members generalizing s with
  | nil =>
      cases h
      exact ⟨rfl, by simp, hone⟩
  | cons repo rest ih =>
      simp only [insertMembers] at h
      split at h
      · cases h
      · rename_i hfresh
        have hnext : ((s.members ++ [(groupId, repo)]).map (·.2)).Nodup := by
          rw [List.map_append]
          exact hone.append (List.nodup_singleton _) (by simpa using hfresh)
        obtain ⟨hgroups, hmembers, hnodup⟩ := ih h hnext
        exact ⟨hgroups, by simp [hmembers], hnodup⟩

theorem of_insertGroup {group : MetaRepo} (h : insertGroup c s group = .ok t) :
    t = { s with metaRepos := s.metaRepos ++ [group] } ∧
      ∀ g ∈ s.metaRepos, g.id ≠ group.id ∧ c.lower g.name ≠ c.lower group.name := by
  rw [insertGroup] at h
  split at h
  · cases h
  · rename_i hfresh
    cases h
    exact ⟨rfl,
      fun g hg => by simpa using fun hsame => hfresh (List.any_eq_true.mpr ⟨g, hg, hsame⟩)⟩

theorem of_updateGroup {group : MetaRepo} (h : updateGroup c s group = .ok t) :
    t = { s with metaRepos := s.metaRepos.map fun g => if g.id = group.id then group else g } ∧
      ∀ g ∈ s.metaRepos, g.id ≠ group.id → c.lower g.name ≠ c.lower group.name := by
  rw [updateGroup] at h
  split at h
  · cases h
  · rename_i hfresh
    cases h
    exact ⟨rfl, fun g hg hne hsame =>
      hfresh (List.any_eq_true.mpr ⟨g, hg, by simp [hne, hsame]⟩)⟩

/-! ## Each operation restores the four conditions -/

/-- The members that a group loses before it goes are all its own. -/
theorem Inv.deleteGroup {rest : List (Uuid × String)} (hinv : Inv c s)
    (hrest : rest.Sublist s.members) (hothers : ∀ m ∈ s.members, m.1 ≠ id → m ∈ rest) :
    Inv c (deleteGroup { s with members := rest } id) := by
  refine .of_primary (fun g hg => ?_)
    (hinv.oneGroup.sublist ((List.filter_sublist.trans hrest).map _))
    (hinv.names.sublist (List.filter_sublist.map _)) (hinv.ids.sublist (List.filter_sublist.map _))
    fun m hm => ?_
  · obtain ⟨hg, hne⟩ := List.mem_filter.mp hg
    exact List.mem_filter.mpr ⟨hothers _ (hinv.primary g hg) (by simpa using hne), hne⟩
  · obtain ⟨hm, hne⟩ := List.mem_filter.mp hm
    obtain ⟨g, hg, hgroup⟩ := hinv.group m (hrest.subset hm)
    exact ⟨g, List.mem_filter.mpr ⟨hg, by simpa [hgroup] using hne⟩, hgroup⟩

theorem Inv.create (hinv : Inv c s) (h : create c existing id input s = .ok t) :
    Inv c t ∧ ∃ g ∈ t.metaRepos, g.id = id := by
  obtain ⟨⟨name, members, primaryRepoName⟩, hinput, h⟩ := ok_of_bind h
  obtain ⟨hnodup, hprimary⟩ := of_normalizeInput hinput
  obtain ⟨-, -, h⟩ := ok_of_bind h
  obtain ⟨-, -, h⟩ := ok_of_bind h
  obtain ⟨-, -, h⟩ := ok_of_bind h
  obtain ⟨s', hgroup, h⟩ := ok_of_bind h
  obtain ⟨rfl, hfresh⟩ := of_insertGroup hgroup
  obtain ⟨hgroups, hmembers, hone⟩ := of_insertMembers h hinv.oneGroup
  simp only at hgroups hmembers
  have hnew : (id, primaryRepoName) ∈ t.members := by
    rw [hmembers]
    exact List.mem_append_right _ (List.mem_map_of_mem hprimary)
  have hold : ∀ m ∈ s.members, m ∈ t.members := fun m hm => by
    rw [hmembers]
    exact List.mem_append_left _ hm
  have hmem : ∀ g ∈ t.metaRepos, g ∈ s.metaRepos ∨ g = ⟨id, name, primaryRepoName⟩ := fun g hg => by
    simpa [hgroups] using hg
  refine ⟨?_, ⟨id, name, primaryRepoName⟩, by simp [hgroups], rfl⟩
  refine .of_primary ?_ hone ?_ ?_ ?_
  · intro g hg
    rcases hmem g hg with hg | rfl
    · exact hold _ (hinv.primary g hg)
    · exact hnew
  · rw [hgroups, List.map_append]
    exact hinv.names.append (List.nodup_singleton _) (by simpa using fun g hg => (hfresh g hg).2)
  · rw [hgroups, List.map_append]
    exact hinv.ids.append (List.nodup_singleton _) (by simpa using fun g hg => (hfresh g hg).1)
  · intro m hm
    rw [hmembers, List.mem_append, List.mem_map] at hm
    rcases hm with hm | ⟨repo, -, rfl⟩
    · obtain ⟨g, hg, hsame⟩ := hinv.group m hm
      exact ⟨g, by simp [hgroups, hg], hsame⟩
    · exact ⟨⟨id, name, primaryRepoName⟩, by simp [hgroups], rfl⟩

theorem Inv.update (hinv : Inv c s) (h : update c existing id input s = .ok t) :
    Inv c t ∧ ∃ g ∈ t.metaRepos, g.id = id := by
  obtain ⟨⟨name, members, primaryRepoName⟩, hinput, h⟩ := ok_of_bind h
  obtain ⟨hnodup, hprimary⟩ := of_normalizeInput hinput
  simp only at h
  split at h
  swap
  · cases h
  rename_i hfound
  obtain ⟨-, -, h⟩ := ok_of_bind h
  obtain ⟨-, -, h⟩ := ok_of_bind h
  obtain ⟨-, -, h⟩ := ok_of_bind h
  obtain ⟨s', hinsert, h⟩ := ok_of_bind h
  obtain ⟨rfl, hfresh⟩ := of_updateGroup h
  have hrest : ((s.members.filter fun m => m.1 ≠ id).map (·.2)).Nodup :=
    hinv.oneGroup.sublist (List.filter_sublist.map _)
  obtain ⟨hgroups, hmembers, hone⟩ := of_insertMembers hinsert hrest
  simp only at hgroups hmembers hfresh
  rw [hgroups] at hfresh ⊢
  have hnew : (id, primaryRepoName) ∈ s'.members := by
    rw [hmembers]
    exact List.mem_append_right _ (List.mem_map_of_mem hprimary)
  have hold : ∀ m ∈ s.members, m.1 ≠ id → m ∈ s'.members := fun m hm hne => by
    rw [hmembers]
    exact List.mem_append_left _ (List.mem_filter.mpr ⟨hm, by simpa using hne⟩)
  have hinj := List.inj_on_of_nodup_map hinv.ids
  have hgroup : ∀ g ∈ s.metaRepos, ∃ g' ∈ s.metaRepos.map fun g =>
      if g.id = id then ⟨id, name, primaryRepoName⟩ else g, g'.id = g.id := fun g hg => by
    refine ⟨_, List.mem_map_of_mem hg, ?_⟩
    split
    · rename_i hsame
      exact hsame.symm
    · rfl
  obtain ⟨g₀, hg₀, hid⟩ := List.any_eq_true.mp hfound
  have hid : g₀.id = id := by simpa using hid
  refine ⟨?_, hid ▸ hgroup g₀ hg₀⟩
  refine .of_primary ?_ hone ?_ ?_ ?_
  · intro g' hg'
    obtain ⟨g, hg, rfl⟩ := List.mem_map.mp hg'
    split
    · exact hnew
    · rename_i hne
      exact hold _ (hinv.primary g hg) hne
  · rw [List.map_map]
    refine List.Nodup.map_on (fun x hx y hy hxy => ?_) (List.Nodup.of_map _ hinv.ids)
    simp only [Function.comp] at hxy
    -- the new name is that of no other group
    split at hxy <;> split at hxy
    · rename_i hxid hyid
      exact hinj hx hy (hxid.trans hyid.symm)
    · rename_i hyid
      exact absurd hxy.symm (hfresh y hy hyid)
    · rename_i hxid _
      exact absurd hxy (hfresh x hx hxid)
    · exact List.inj_on_of_nodup_map hinv.names hx hy hxy
  · have hids : (s.metaRepos.map fun g => if g.id = id then ⟨id, name, primaryRepoName⟩ else g).map
        (·.id) = s.metaRepos.map (·.id) := by
      rw [List.map_map]
      refine List.map_congr_left fun g _ => ?_
      simp only [Function.comp]
      split
      · rename_i hsame
        exact hsame.symm
      · rfl
    rw [hids]
    exact hinv.ids
  · intro m hm
    rw [hmembers, List.mem_append, List.mem_map] at hm
    rcases hm with hm | ⟨repo, -, rfl⟩
    · obtain ⟨g, hg, hsame⟩ := hinv.group m (List.mem_filter.mp hm).1
      obtain ⟨g', hg', hg'id⟩ := hgroup g hg
      exact ⟨g', hg', hg'id.trans hsame⟩
    · exact hid ▸ hgroup g₀ hg₀

theorem Inv.renameRepoReferences {oldName newName : String} (hinv : Inv c s)
    (hnew : newName ∉ s.members.map (·.2))
    (h : renameRepoReferences oldName newName s = .ok t) : Inv c t := by
  rw [MetaRepos.renameRepoReferences, if_neg fun hused => hnew hused.2.2] at h
  cases h
  refine .of_primary ?_ ?_ ?_ ?_ ?_
  · intro g' hg'
    obtain ⟨g, hg, rfl⟩ := List.mem_map.mp hg'
    exact List.mem_map.mpr ⟨_, hinv.primary g hg, rfl⟩
  · -- the new name takes the place of one that goes
    have hnames : ((s.members.map fun m => (m.1, renamed oldName newName m.2)).map (·.2)) =
        (s.members.map (·.2)).map (renamed oldName newName) := by
      rw [List.map_map, List.map_map]
      rfl
    rw [hnames]
    refine List.Nodup.map_on (fun x hx y hy hxy => ?_) hinv.oneGroup
    simp only [renamed] at hxy
    split at hxy <;> split at hxy
    · rename_i hxold hyold
      exact hxold.trans hyold.symm
    · exact absurd (hxy ▸ hy) hnew
    · exact absurd (hxy ▸ hx) hnew
    · exact hxy
  · simpa [List.map_map, Function.comp_def] using hinv.names
  · simpa [List.map_map, Function.comp_def] using hinv.ids
  · intro m' hm'
    obtain ⟨m, hm, rfl⟩ := List.mem_map.mp hm'
    obtain ⟨g, hg, hsame⟩ := hinv.group m hm
    exact ⟨_, List.mem_map_of_mem hg, hsame⟩

/-- Some members go, and each group has a primary repository among those that stay. -/
theorem Inv.reelect (rest : List (Uuid × String)) (primary : MetaRepo → String) (hinv : Inv c s)
    (hrest : rest.Sublist s.members) (hprimary : ∀ g ∈ s.metaRepos, (g.id, primary g) ∈ rest) :
    Inv c ⟨s.metaRepos.map fun g => { g with primaryRepoName := primary g }, rest⟩ := by
  refine .of_primary ?_ (hinv.oneGroup.sublist (hrest.map _)) ?_ ?_ ?_
  · intro g' hg'
    obtain ⟨g, hg, rfl⟩ := List.mem_map.mp hg'
    exact hprimary g hg
  · simpa [List.map_map, Function.comp_def] using hinv.names
  · simpa [List.map_map, Function.comp_def] using hinv.ids
  · intro m hm
    obtain ⟨g, hg, hsame⟩ := hinv.group m (hrest.subset hm)
    exact ⟨_, List.mem_map_of_mem hg, hsame⟩

theorem Inv.removeRepoMembership {repoName : String} (hinv : Inv c s)
    (h : removeRepoMembership c repoName s = .ok t) : Inv c t := by
  simp only [MetaRepos.removeRepoMembership] at h
  split at h
  · cases h
    exact hinv
  rename_i groupId found hmember
  split at h
  · cases h
    exact hinv
  rename_i group hfind
  have hid : group.id = groupId := by simpa using List.find?_some hfind
  have hin : group ∈ s.metaRepos := List.mem_of_find?_eq_some hfind
  have hfound : found = repoName := by simpa using List.find?_some hmember
  subst hfound
  have hmem : (groupId, found) ∈ s.members := List.mem_of_find?_eq_some hmember
  -- the repository is in this group only
  have hothers : ∀ m ∈ s.members, m.1 ≠ groupId → m ∈ s.members.filter fun m => m.2 ≠ found :=
    fun m hm hne => by
      refine List.mem_filter.mpr ⟨hm, ?_⟩
      have hne' : m.2 ≠ found := fun hsame =>
        hne (congrArg Prod.fst (List.inj_on_of_nodup_map hinv.oneGroup hm hmem hsame))
      simpa using hne'
  split at h
  · cases h
    exact hinv.deleteGroup List.filter_sublist hothers
  · rename_i nextPrimary hnext
    have hnext : (groupId, nextPrimary) ∈ s.members.filter fun m => m.2 ≠ found := by
      have hmem := List.mem_of_head? hnext
      simp only [orderBy, List.mem_insertionSort] at hmem
      obtain ⟨m, hm, rfl⟩ := List.mem_map.mp hmem
      obtain ⟨hm, hgroup⟩ := List.mem_filter.mp hm
      have hgroup : m.1 = groupId := by simpa using hgroup
      exact hgroup ▸ hm
    have hsame : ∀ g ∈ s.metaRepos, g.id = groupId → g = group := fun g hg hgid =>
      List.inj_on_of_nodup_map hinv.ids hg hin (hgid.trans hid.symm)
    split at h
    · cases h
      have hreelect := hinv.reelect (s.members.filter fun m => m.2 ≠ found)
        (fun g => if g.id = groupId then nextPrimary else g.primaryRepoName) List.filter_sublist
        fun g hg => by
          split
          · rename_i hgid
            exact hgid ▸ hnext
          · rename_i hne
            exact hothers _ (hinv.primary g hg) hne
      convert hreelect using 2
      refine List.map_congr_left fun g _ => ?_
      split <;> rfl
    · rename_i hkeeps
      cases h
      have hreelect := hinv.reelect (s.members.filter fun m => m.2 ≠ found)
        (·.primaryRepoName) List.filter_sublist
        fun g hg => by
          by_cases hgid : g.id = groupId
          · have hne : g.primaryRepoName ≠ found := hsame g hg hgid ▸ hkeeps
            exact List.mem_filter.mpr ⟨hinv.primary g hg, decide_eq_true hne⟩
          · exact hothers _ (hinv.primary g hg) hgid
      simpa using hreelect

theorem Inv.transaction {call : Call} (hinv : Inv c s) (hfresh : FreshName s call)
    (h : call.transaction c s = .ok t) : Inv c t := by
  cases call with
  | create existing id input => exact (hinv.create h).1
  | update existing id input => exact (hinv.update h).1
  | delete id =>
      simp only [Call.transaction, MetaRepos.delete] at h
      split at h
      · cases h
        exact hinv.deleteGroup (List.Sublist.refl _) fun m hm _ => hm
      · cases h
  | renameRepoReferences oldName newName => exact hinv.renameRepoReferences hfresh h
  | removeRepoMembership repoName => exact hinv.removeRepoMembership h

theorem Inv.run {call : Call} (hinv : Inv c s) (hfresh : FreshName s call) :
    Inv c (call.run c s).2 := by
  rw [Call.run]
  split
  · rename_i t ht
    exact hinv.transaction hfresh ht
  · exact hinv

theorem Inv.step : Preserved (step c) FreshName (Inv c) := by
  intro s call t hinv hfresh hstep
  cases hstep
  exact hinv.run hfresh

/-! ## A refused call -/

theorem get_of_mem (h : ∃ g ∈ s.metaRepos, g.id = id) : ∃ view, get c existing s id = .ok view := by
  rw [get]
  split
  · exact ⟨_, rfl⟩
  · rename_i hnone
    obtain ⟨g, hg, hid⟩ := h
    exact absurd hid (by simpa using List.find?_eq_none.mp hnone g hg)

/-- After its commit a call can no longer be refused. -/
theorem answer_of_transaction {call : Call} (hinv : Inv c s) (h : call.transaction c s = .ok t) :
    ∃ view, call.answer c t = .ok view := by
  cases call with
  | create existing id input =>
      obtain ⟨view, hview⟩ : ∃ view, get c existing t id = .ok view :=
        get_of_mem (hinv.create h).2
      exact ⟨some view, by rw [Call.answer, hview]; rfl⟩
  | update existing id input =>
      obtain ⟨view, hview⟩ : ∃ view, get c existing t id = .ok view :=
        get_of_mem (hinv.update h).2
      exact ⟨some view, by rw [Call.answer, hview]; rfl⟩
  | delete id => exact ⟨none, rfl⟩
  | renameRepoReferences oldName newName => exact ⟨none, rfl⟩
  | removeRepoMembership repoName => exact ⟨none, rfl⟩

/-- **Well-formed groups.** In every state that the five operations lead to from the empty store,
the groups are well-formed, and a call that is refused changes nothing. -/
theorem metaRepos_wellFormed (hrun : Run (step c) FreshName .empty s) :
    WellFormed c s ∧
      ∀ (call : Call) (e : MetaRepoError), (call.run c s).1 = .error e → (call.run c s).2 = s := by
  have hinv : Inv c s := hrun.invariant Inv.step Inv.empty
  refine ⟨hinv.toWellFormed, fun call e hrefused => ?_⟩
  rw [Call.run] at hrefused ⊢
  split at hrefused
  · rename_i t ht
    obtain ⟨view, hview⟩ := answer_of_transaction hinv ht
    rw [hview] at hrefused
    cases hrefused
  · rfl

section Examples

/-- Case and order of ASCII names. -/
def ascii : Collation where
  lower := toAsciiLowercase
  before a b := decide (toAsciiLowercase a ≤ toAsciiLowercase b)
  toLowercase := toAsciiLowercase

/-- A group of two repositories whose primary one is renamed and then removed. -/
def reelection : List Call :=
  [.create (fun _ => true) 1 ⟨"Site", [" web", "api"], "web"⟩, .renameRepoReferences "web" "front",
    .removeRepoMembership "front"]

def reelected : Store := ⟨[⟨1, "Site", "api"⟩], [(1, "api")]⟩

theorem metaRepos_wellFormed_reelected :
    WellFormed ascii reelected ∧ ∀ (call : Call) (e : MetaRepoError),
      (call.run ascii reelected).1 = .error e → (call.run ascii reelected).2 = reelected :=
  metaRepos_wellFormed (Run.of_restrict reelection (by decide))

end Examples

end Sulion.MetaRepos
