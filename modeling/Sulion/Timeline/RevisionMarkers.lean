import Sulion.Lib.Markers
import Sulion.Timeline.ReducerLinks
import Sulion.Timeline.Summaries

set_option autoImplicit false

/-! # What a timeline revision hides

A pane fetches its summary again when the revision has changed. The revision of a PTY is a sum over
its current session and the sessions linked from it, that of a repository a sum over the current
sessions of its PTYs, so a change of another session that the summary shows goes unseen, and so
does one that a fall of the sum makes up for. `KeepsPty` and `KeepsRepo` are the steps that neither
happens in: each of them raises the revision or leaves the summary as it is, and the revision does
not fall.
-/

namespace Sulion.Timeline.Summaries

open Sulion.Rust Transition Pty

variable {s t : Store} {session pty root y : Uuid} {context : Context}

/-! ## Which sessions count -/

/-- The session's turns may be in the summary of `session`. -/
def Shown (s : Store) (session y : Uuid) : Prop := y = session ∨ y ∈ down s.childLinks session

/-- The session's revision is in that of `session`. -/
def Counted (s : Store) (session y : Uuid) : Prop :=
  y = session ∨ y ∈ linkedChildren s.childLinks session

def current (s : Store) (pty : Uuid) : Option Uuid :=
  s.ptySessions[pty]?.bind PtySession.currentSessionUuid

/-- The steps that a PTY's revision accounts for. -/
def KeepsPty (pty : Uuid) (s : Store) : Step → Prop
  | .projectBatch context _ => ∀ session, current s pty = some session →
      Counted s session context.sessionUuid ∨
        (¬ Shown s session context.sessionUuid ∧
          ∀ parent, context.childOf = some parent → parent = session ∨ ¬ Shown s session parent)
  | .requestRebuild _ | .ingest _ _ => True
  | .nameSession session pty' agent _ => current s pty = some session →
      ∃ cs, s.claudeSessions[session]? = some cs ∧ cs.agent = agent ∧ cs.ptySessionId = some pty'
  | .releaseElsewhere session pty' => pty' ≠ pty → current s pty ≠ some session
  | .setCurrent session pty' => pty' = pty →
      current s pty = some session ∨ sessionRevision pty s < revisionOf s session
  | .purge y | .withdraw y => ∀ session, current s pty = some session → ¬ Shown s session y

/-- A session that the repository's timeline lists. -/
def Listed (s : Store) (repo : String) (session : Uuid) : Prop :=
  ∃ cs, s.claudeSessions[session]? = some cs ∧ inRepo s repo cs = true ∧
    (s.timelines session).codexSubagent = false

/-- The session's turns may be in the repository's timeline. -/
def ShownInRepo (s : Store) (repo : String) (y : Uuid) : Prop :=
  ∃ session, Listed s repo session ∧ Shown s session y

/-- The session's PTY, if it has one, is not of the repository. -/
def Elsewhere (s : Store) (repo : String) (session : Uuid) : Prop :=
  ∀ cs, s.claudeSessions[session]? = some cs → inRepo s repo cs = false

/-- A PTY whose current session is in the repository's revision. -/
def Adds (s : Store) (repo : String) (pty : Uuid) (row : PtySession) : Prop :=
  s.ptySessions[pty]? = some row ∧ row.repo = repo ∧ row.state ≠ .deleted

/-- The steps that a repository's revision accounts for. -/
def KeepsRepo (repo : String) (s : Store) : Step → Prop
  | .projectBatch context _ =>
      (∃ pty row, Adds s repo pty row ∧ row.currentSessionUuid = some context.sessionUuid) ∨
        (¬ ShownInRepo s repo context.sessionUuid ∧
          ∀ parent, context.childOf = some parent → ¬ ShownInRepo s repo parent)
  | .requestRebuild _ => True
  | .ingest session codexSubagent =>
      (s.timelines session).codexSubagent = codexSubagent ∨ Elsewhere s repo session
  | .nameSession session pty agent _ =>
      (∃ cs, s.claudeSessions[session]? = some cs ∧ cs.agent = agent ∧ cs.ptySessionId = some pty) ∨
        (Elsewhere s repo session ∧ ∀ row, s.ptySessions[pty]? = some row → row.repo ≠ repo)
  | .releaseElsewhere session pty =>
      ∀ pty' row, Adds s repo pty' row → row.currentSessionUuid = some session → pty' = pty
  | .setCurrent session pty =>
      ∀ row, Adds s repo pty row →
        revisionShare s repo row ≤ (s.timelines session).revision
  | .purge y | .withdraw y => Elsewhere s repo y ∧ ¬ ShownInRepo s repo y

/-! ## Links that do not matter -/

theorem mem_spawnedBy_iff {links : Finset ChildLink} {child : Uuid} :
    child ∈ spawnedBy links root ↔ ∃ l ∈ links, l.sessionUuid = root ∧ l.childTurnId < 0 ∧
      l.childSessionUuid ≠ root ∧ l.childSessionUuid = child := by
  simp only [spawnedBy, Finset.mem_image, Finset.mem_filter]
  constructor
  · rintro ⟨l, ⟨hl, hparent, hturn, hne⟩, hchild⟩
    exact ⟨l, hl, hparent, hturn, hne, hchild⟩
  · rintro ⟨l, hl, hparent, hturn, hne, hchild⟩
    exact ⟨l, ⟨hl, hparent, hturn, hne⟩, hchild⟩

theorem mem_downLinks_iff {links : Finset ChildLink} {a b : Uuid} :
    (a, b) ∈ downLinks links root ↔ ∃ l ∈ links, l.childTurnId < 0 ∧ l.childSessionUuid ≠ root ∧
      l.sessionUuid = a ∧ l.childSessionUuid = b := by
  simp only [downLinks, Finset.mem_image, Finset.mem_filter, Prod.mk.injEq]
  constructor
  · rintro ⟨l, ⟨hl, hturn, hne⟩, hparent, hchild⟩
    exact ⟨l, hl, hturn, hne, hparent, hchild⟩
  · rintro ⟨l, hl, hturn, hne, hparent, hchild⟩
    exact ⟨l, ⟨hl, hturn, hne⟩, hparent, hchild⟩

/-- Links of sessions that are not shown lead to none that is. -/
theorem down_congr (hlinks : ∀ l : ChildLink, Shown s root l.sessionUuid →
    (l ∈ t.childLinks ↔ l ∈ s.childLinks)) : down t.childLinks root = down s.childLinks root := by
  ext child
  constructor
  · intro hchild
    refine reachableFrom_least (P := fun y => y ∈ down s.childLinks root) ?_ ?_ hchild
    · intro y hy
      obtain ⟨l, hl, hparent, hturn, hne, rfl⟩ := mem_spawnedBy_iff.mp hy
      have hold := (hlinks l (Or.inl hparent)).mp hl
      exact subset_reachableFrom (mem_spawnedBy_iff.mpr ⟨l, hold, hparent, hturn, hne, rfl⟩)
    · intro a b _ ha hedge
      obtain ⟨l, hl, hturn, hne, rfl, rfl⟩ := mem_downLinks_iff.mp hedge
      have hold := (hlinks l (Or.inr ha)).mp hl
      exact mem_of_edge ha (mem_downLinks_iff.mpr ⟨l, hold, hturn, hne, rfl, rfl⟩)
  · intro hchild
    refine reachableFrom_least (P := fun y => y ∈ down t.childLinks root) ?_ ?_ hchild
    · intro y hy
      obtain ⟨l, hl, hparent, hturn, hne, rfl⟩ := mem_spawnedBy_iff.mp hy
      have hnew := (hlinks l (Or.inl hparent)).mpr hl
      exact subset_reachableFrom (mem_spawnedBy_iff.mpr ⟨l, hnew, hparent, hturn, hne, rfl⟩)
    · intro a b hold ha hedge
      obtain ⟨l, hl, hturn, hne, rfl, rfl⟩ := mem_downLinks_iff.mp hedge
      have hnew := (hlinks l (Or.inr hold)).mpr hl
      exact mem_of_edge ha (mem_downLinks_iff.mpr ⟨l, hnew, hturn, hne, rfl, rfl⟩)

theorem mem_linkedChildren_iff {links : Finset ChildLink} {child : Uuid} :
    child ∈ linkedChildren links session ↔ ∃ l ∈ links, l.sessionUuid = session ∧
      l.childSessionUuid ≠ l.sessionUuid ∧ l.childSessionUuid = child := by
  simp only [linkedChildren, Finset.mem_image, Finset.mem_filter]
  constructor
  · rintro ⟨l, ⟨hl, hparent, hne⟩, hchild⟩
    exact ⟨l, hl, hparent, hne, hchild⟩
  · rintro ⟨l, hl, hparent, hne, hchild⟩
    exact ⟨l, ⟨hl, hparent, hne⟩, hchild⟩

theorem linkedChildren_congr (hlinks : ∀ l : ChildLink, l.sessionUuid = session →
    (l ∈ t.childLinks ↔ l ∈ s.childLinks)) :
    linkedChildren t.childLinks session = linkedChildren s.childLinks session := by
  ext child
  rw [mem_linkedChildren_iff, mem_linkedChildren_iff]
  constructor
  · rintro ⟨l, hl, hparent, hne, hchild⟩
    exact ⟨l, (hlinks l hparent).mp hl, hparent, hne, hchild⟩
  · rintro ⟨l, hl, hparent, hne, hchild⟩
    exact ⟨l, (hlinks l hparent).mpr hl, hparent, hne, hchild⟩

theorem linkedChildren_mono (h : s.childLinks ⊆ t.childLinks) :
    linkedChildren s.childLinks session ⊆ linkedChildren t.childLinks session :=
  Finset.image_subset_image (Finset.filter_subset_filter _ h)

/-! ## Summaries read the shown sessions only -/

/-- The rows that a summary is made of. -/
def SameRows (p p' : Projection) : Prop :=
  p.turns = p'.turns ∧ p.ops = p'.ops ∧ p.touches = p'.touches

theorem SameRows.refl (p : Projection) : SameRows p p := ⟨rfl, rfl, rfl⟩

section Reads

variable {pathMatches : String → String → Bool} {filters : ProjectionFilters}

theorem loadOwnTimelineSummary_congr {p p' : Projection} (h : SameRows p p') :
    loadOwnTimelineSummary pathMatches filters p = loadOwnTimelineSummary pathMatches filters
      p' := by
  obtain ⟨hturns, hops, htouches⟩ := h
  have hreferenced : loadReferencedTurnIds pathMatches filters p
      = loadReferencedTurnIds pathMatches filters p' := by
    unfold loadReferencedTurnIds
    rw [htouches]
  have hloaded (referenced : Option (List Int)) :
      loadProjectedTurnSummaryRows filters p referenced
        = loadProjectedTurnSummaryRows filters p' referenced := by
    unfold loadProjectedTurnSummaryRows
    rw [hturns]
  have hbadges (turnId : Int) :
      operationBadges filters p turnId = operationBadges filters p' turnId := by
    unfold operationBadges
    rw [hops]
  unfold loadOwnTimelineSummary
  rw [hreferenced, hturns]
  simp only [hloaded, hbadges]

theorem mem_sortedUuids {uuids : Finset Uuid} {u : Uuid} : u ∈ sortedUuids uuids ↔ u ∈ uuids := by
  simp only [sortedUuids, List.mem_map, Finset.mem_sort, Finset.mem_image]
  constructor
  · rintro ⟨n, ⟨v, hv, rfl⟩, rfl⟩
    simpa using hv
  · intro hu
    exact ⟨u.toNat, ⟨u, hu, rfl⟩, by simp⟩

/-- The sessions shown have the same rows, and the same links between them. -/
structure Unchanged (s t : Store) (session : Uuid) : Prop where
  links : ∀ l : ChildLink, Shown s session l.sessionUuid → (l ∈ t.childLinks ↔ l ∈ s.childLinks)
  rows : ∀ y, Shown s session y → SameRows (t.timelines y).projection (s.timelines y).projection

/-- A step that leaves the timelines and the links alone. -/
theorem Unchanged.of_eq (htimelines : t.timelines = s.timelines)
    (hlinks : t.childLinks = s.childLinks) : Unchanged s t session where
  links := by
    intro l _
    rw [hlinks]
  rows := by
    intro y _
    rw [htimelines]
    exact .refl _

theorem loadTimelineSummaryResponse_congr (h : Unchanged s t session) :
    loadTimelineSummaryResponse pathMatches filters t session
      = loadTimelineSummaryResponse pathMatches filters s session := by
  have hown : loadOwnTimelineSummary pathMatches filters (t.timelines session).projection
      = loadOwnTimelineSummary pathMatches filters (s.timelines session).projection :=
    loadOwnTimelineSummary_congr (h.rows session (Or.inl rfl))
  have hchildren : loadChildTurnSummaries pathMatches filters t session
      = loadChildTurnSummaries pathMatches filters s session := by
    unfold loadChildTurnSummaries
    rw [down_congr h.links]
    apply List.flatMap_congr
    intro child hchild
    rw [loadOwnTimelineSummary_congr (h.rows child (Or.inr (mem_sortedUuids.mp hchild)))]
  unfold loadTimelineSummaryResponse
  rw [hown, hchildren]

/-- What a summary takes from `claude_sessions`. -/
def ClaudeSession.owner (cs : ClaudeSession) : String × Option Uuid := (cs.agent, cs.ptySessionId)

theorem sessionTimeline_congr (hpty : t.ptySessions[pty]? = s.ptySessions[pty]?)
    (howner : ∀ session, current s pty = some session →
      t.claudeSessions[session]?.map ClaudeSession.owner
        = s.claudeSessions[session]?.map ClaudeSession.owner)
    (hunchanged : ∀ session, current s pty = some session → Unchanged s t session) :
    sessionTimeline pathMatches filters pty s = sessionTimeline pathMatches filters pty t := by
  unfold sessionTimeline
  rw [hpty]
  cases hrow : s.ptySessions[pty]? with
  | none => rfl
  | some row =>
      cases hcurrent : row.currentSessionUuid with
      | none => simp only [hcurrent]
      | some session =>
          have hsession : current s pty = some session := by
            rw [current, hrow]
            exact hcurrent
          have hload : loadTimelineSummaryResponse pathMatches filters t session
              = loadTimelineSummaryResponse pathMatches filters s session :=
            loadTimelineSummaryResponse_congr (hunchanged session hsession)
          have howner := howner session hsession
          simp only [hcurrent, hload]
          cases hs : s.claudeSessions[session]? with
          | none =>
              cases ht : t.claudeSessions[session]? with
              | none => rfl
              | some cs' => simp [hs, ht] at howner
          | some cs =>
              cases ht : t.claudeSessions[session]? with
              | none => simp [hs, ht] at howner
              | some cs' =>
                  simp only [hs, ht, Option.map_some, Option.some.injEq, ClaudeSession.owner,
                    Prod.mk.injEq] at howner
                  simp only [Option.map_some, annotateTimelineSummaries, howner.1, howner.2]

theorem repoTimeline_congr {repo : String} (hsessions : repoSessions t repo = repoSessions s repo)
    (hunchanged : ∀ e ∈ repoSessions s repo, Unchanged s t e.1) :
    repoTimeline pathMatches filters repo s = repoTimeline pathMatches filters repo t := by
  have hresponses : ((repoSessions t repo).map fun e =>
        let response := loadTimelineSummaryResponse pathMatches filters t e.1
        { response with turns := annotateTimelineSummaries e.1 e.2 response.turns })
      = (repoSessions s repo).map fun e =>
        let response := loadTimelineSummaryResponse pathMatches filters s e.1
        { response with turns := annotateTimelineSummaries e.1 e.2 response.turns } := by
    rw [hsessions]
    apply List.map_congr_left
    intro e he
    rw [loadTimelineSummaryResponse_congr (hunchanged e he)]
  unfold repoTimeline
  rw [← hresponses]

end Reads

/-! ## What the steps change -/

/-- A batch without changes leaves its session's rows as they are. -/
theorem persist_of_isEmpty {r : Reducer} (hr : r.Tidy context)
    (hempty : isEmptyChanges r.intoChanges = true) (db : Projection) :
    SameRows { persist db r.intoChanges with links := ∅ } db ∧ r.intoChanges.links = ∅ := by
  simp only [isEmptyChanges, Bool.and_eq_true, List.isEmpty_iff, decide_eq_true_iff] at hempty
  obtain ⟨⟨⟨⟨hturns, -⟩, hnew⟩, hupdated⟩, hlinks⟩ := hempty
  have htouches : r.intoChanges.touches = [] := by
    apply List.map_eq_nil_iff.mpr
    apply List.eq_nil_iff_forall_not_mem.mpr
    intro op hop
    obtain ⟨k, hk⟩ := Table.mem_rows.mp hop
    rw [Std.ExtTreeMap.getElem?_filter', Option.filter_eq_some_iff, decide_eq_true_iff] at hk
    obtain ⟨hk, hmark⟩ := hk
    by_cases hknew : k ∈ r.newOps
    · have hmem : op ∈ r.intoChanges.newOps := Table.mem_rows.mpr ⟨k, by simp [hk, hknew]⟩
      rw [hnew] at hmem
      cases hmem
    · -- The input of a stored operation changed, so it is among the updated ones.
      have hkupdated := (hr.input k (hmark.resolve_left hknew)).resolve_left hknew
      have hmem : op ∈ Table.rows (r.ops.filter fun key _ =>
          decide (key ∈ r.updatedOps ∧ key ∉ r.newOps)) :=
        Table.mem_rows.mpr ⟨k, by simp [hk, hknew, hkupdated]⟩
      rw [List.map_eq_nil_iff.mp hupdated] at hmem
      cases hmem
  refine ⟨⟨?_, ?_, ?_⟩, hlinks⟩
  · show Table.mergeList upsertTurn db.turns _ = db.turns
    rw [hturns]
    rfl
  · show Table.updateList updateOperation (Table.mergeList _ db.ops _) _ = db.ops
    rw [hnew, hupdated]
    rfl
  · show Table.mergeList (fun _ touches => touches) db.touches (r.intoChanges.touches.map _)
      = db.touches
    rw [htouches]
    rfl

/-- The timeline of one session changes, and links are added. -/
def Store.commit (s : Store) (session : Uuid) (timeline : SessionTimeline)
    (links : Finset ChildLink) : Store :=
  { s.setTimeline session timeline with childLinks := s.childLinks ∪ links }

/-- Neither the rows nor the revision of a timeline change. -/
def SessionTimeline.Same (timeline timeline' : SessionTimeline) : Prop :=
  timeline.revision = timeline'.revision ∧ SameRows timeline.projection timeline'.projection

/-- **A batch that changes rows takes the next revision.** -/
theorem projectBatch_commits {events : List StoredEvent}
    (h : projectBatch s context events = some t) :
    ∃ timeline links, t = s.commit context.sessionUuid timeline links ∧
      (∀ l ∈ links, OwnLink context l) ∧
      timeline.codexSubagent = (s.timelines context.sessionUuid).codexSubagent ∧
      ((s.timelines context.sessionUuid).revision < timeline.revision ∨
        (timeline.Same (s.timelines context.sessionUuid) ∧ links = ∅)) := by
  unfold projectBatch at h
  split at h
  · cases h
  · split at h
    · -- A purged session is left alone.
      cases h
      refine ⟨s.timelines context.sessionUuid, ∅, ?_, ?_, rfl, Or.inr ⟨⟨rfl, .refl _⟩, rfl⟩⟩
      · simp [Store.commit, Store.setTimeline]
      · intro l hl
        exact absurd hl (Finset.notMem_empty l)
    · dsimp only at h
      generalize hopened : (if (s.timelines context.sessionUuid).current
        then s.timelines context.sessionUuid
        else (s.timelines context.sessionUuid).cleared) = opened at h
      -- A rebuild has taken a revision before its first event.
      have hrevision : (s.timelines context.sessionUuid).revision < opened.revision ∨
          opened = s.timelines context.sessionUuid := by
        rw [← hopened]
        split
        · exact Or.inr rfl
        · exact Or.inl (Nat.lt_succ_self _)
      have hcodex : opened.codexSubagent = (s.timelines context.sessionUuid).codexSubagent := by
        rw [← hopened]
        split
        · rfl
        · rfl
      split at h
      · cases h
        refine ⟨opened, ∅, ?_, ?_, hcodex, ?_⟩
        · simp [Store.commit, Store.setTimeline]
        · intro l hl
          exact absurd hl (Finset.notMem_empty l)
        · rcases hrevision with hlt | heq
          · exact Or.inl hlt
          · exact Or.inr ⟨heq ▸ ⟨rfl, .refl _⟩, rfl⟩
      · split at h
        · cases h
        · rename_i r hr
          cases h
          have htidy := (Reducer.tidy_new opened.projection).foldlM_apply hr
          refine ⟨_, r.intoChanges.links, rfl, htidy.links, hcodex, ?_⟩
          show (s.timelines context.sessionUuid).revision
            < (if isEmptyChanges r.intoChanges then opened.revision else opened.revision + 1) ∨ _
          by_cases hempty : isEmptyChanges r.intoChanges = true
          · obtain ⟨hsame, hlinks⟩ := persist_of_isEmpty htidy hempty opened.projection
            rcases hrevision with hlt | heq
            · left
              rw [if_pos hempty]
              exact hlt
            · refine Or.inr ⟨⟨?_, ?_⟩, hlinks⟩
              · show (if _ then _ else _) = _
                rw [if_pos hempty, heq]
              · rw [← heq]
                exact hsame
          · left
            rw [if_neg hempty]
            rcases hrevision with hlt | heq
            · exact Nat.lt_succ_of_lt hlt
            · exact heq ▸ Nat.lt_succ_self _

theorem setTimeline_eq_commit (timeline : SessionTimeline) :
    s.setTimeline y timeline = s.commit y timeline ∅ := by
  simp [Store.commit, Store.setTimeline]

theorem timelines_commit_of_ne {timeline : SessionTimeline} {links : Finset ChildLink} {y' : Uuid}
    (hne : y' ≠ y) : (s.commit y timeline links).timelines y' = s.timelines y' :=
  Function.update_of_ne hne _ _

theorem timelines_commit_self {timeline : SessionTimeline} {links : Finset ChildLink} :
    (s.commit y timeline links).timelines y = timeline := Function.update_self ..

theorem unchanged_commit_same {timeline : SessionTimeline} (h : timeline.Same (s.timelines y)) :
    Unchanged s (s.commit y timeline ∅) session where
  links := by
    intro l _
    show l ∈ s.childLinks ∪ ∅ ↔ l ∈ s.childLinks
    rw [Finset.union_empty]
  rows := by
    intro y' _
    by_cases hy : y' = y
    · rw [hy, timelines_commit_self]
      exact h.2
    · rw [timelines_commit_of_ne hy]
      exact .refl _

/-- Links that only lead to and from sessions that are not shown, but for those of `session`. -/
theorem unchanged_commit {timeline : SessionTimeline} {links : Finset ChildLink}
    (hrows : ¬ Shown s session y) (hlinks : ∀ l ∈ links, ¬ Shown s session l.sessionUuid) :
    Unchanged s (s.commit y timeline links) session where
  links := by
    intro l hshown
    show l ∈ s.childLinks ∪ links ↔ l ∈ s.childLinks
    rw [Finset.mem_union]
    constructor
    · rintro (hl | hl)
      · exact hl
      · exact absurd hshown (hlinks l hl)
    · exact Or.inl
  rows := by
    intro y' hshown
    rw [timelines_commit_of_ne]
    · exact .refl _
    · rintro rfl
      exact hrows hshown

/-- `claude_sessions` with one row whose owner stays. -/
theorem owner_insert {sessions : Table Uuid ClaudeSession} {cs cs' : ClaudeSession}
    (h : sessions[y]? = some cs) (howner : cs'.owner = cs.owner) (session : Uuid) :
    (sessions.insert y cs')[session]?.map ClaudeSession.owner
      = sessions[session]?.map ClaudeSession.owner := by
  rw [Table.lookup_insert]
  by_cases hy : y = session
  · rw [if_pos hy, ← hy, h, Option.map_some, Option.map_some, howner]
  · rw [if_neg hy]

/-- What a purge and the withdrawal of a restore have in common: one session, which takes its own
links with it. -/
structure Clears (y : Uuid) (s t : Store) : Prop where
  ptys : t.ptySessions = s.ptySessions
  session : ∃ cs purged, s.claudeSessions[y]? = some cs ∧
    t.claudeSessions = s.claudeSessions.insert y { cs with purged := purged }
  timelines : ∀ y' ≠ y, t.timelines y' = s.timelines y'
  revision : ∀ y', (t.timelines y').revision = (s.timelines y').revision
  links : ∀ l : ChildLink, l.sessionUuid ≠ y → (l ∈ t.childLinks ↔ l ∈ s.childLinks)

theorem clears_setTimeline {timeline : SessionTimeline} {cs : ClaudeSession} {purged : Bool}
    {links : Finset ChildLink} (hcs : s.claudeSessions[y]? = some cs)
    (hrevision : timeline.revision = (s.timelines y).revision)
    (hlinks : ∀ l : ChildLink, l.sessionUuid ≠ y → (l ∈ links ↔ l ∈ s.childLinks)) :
    Clears y s { s.setTimeline y timeline with
      claudeSessions := s.claudeSessions.insert y { cs with purged := purged }
      childLinks := links } where
  ptys := rfl
  session := ⟨cs, purged, hcs, rfl⟩
  timelines := fun _ hne => Function.update_of_ne hne _ _
  revision := by
    intro y'
    show (Function.update s.timelines y timeline y').revision = _
    by_cases hy : y' = y
    · rw [hy, Function.update_self, hrevision]
    · rw [Function.update_of_ne hy]
  links := hlinks

theorem purgeSession_clears (h : purgeSession s y = some t) : Clears y s t := by
  unfold purgeSession at h
  split at h
  · cases h
  · rename_i cs hcs
    split at h
    · cases h
    · cases h
      refine clears_setTimeline hcs rfl ?_
      intro l hne
      show l ∈ s.childLinks.filter _ ↔ _
      rw [Finset.mem_filter]
      exact ⟨fun h => h.1, fun h => ⟨h, hne⟩⟩

theorem withdrawAndClear_clears (h : withdrawAndClear s y = some t) : Clears y s t := by
  unfold withdrawAndClear at h
  split at h
  · cases h
  · rename_i cs hcs
    split at h
    · cases h
      exact clears_setTimeline hcs rfl fun _ _ => Iff.rfl
    · cases h

theorem Clears.unchanged (h : Clears y s t) (hshown : ¬ Shown s session y) :
    Unchanged s t session where
  links := by
    intro l hl
    apply h.links
    intro heq
    exact hshown (heq ▸ hl)
  rows := by
    intro y' hy'
    rw [h.timelines]
    · exact .refl _
    · rintro rfl
      exact hshown hy'

/-! ## Sums of revisions -/

theorem revisionOf_le (hrevision : ∀ y, (s.timelines y).revision ≤ (t.timelines y).revision)
    (hlinks : s.childLinks ⊆ t.childLinks) : revisionOf s session ≤ revisionOf t session := by
  have hchildren : ∑ child ∈ linkedChildren s.childLinks session, (s.timelines child).revision
      ≤ ∑ child ∈ linkedChildren t.childLinks session, (t.timelines child).revision :=
    calc ∑ child ∈ linkedChildren s.childLinks session, (s.timelines child).revision
        ≤ ∑ child ∈ linkedChildren t.childLinks session, (s.timelines child).revision :=
          Finset.sum_le_sum_of_subset (linkedChildren_mono hlinks)
      _ ≤ ∑ child ∈ linkedChildren t.childLinks session, (t.timelines child).revision :=
          Finset.sum_le_sum fun child _ => hrevision child
  have hown := hrevision session
  unfold revisionOf
  omega

/-- A revision that counts afterwards has risen. -/
theorem revisionOf_lt (hrevision : ∀ y, (s.timelines y).revision ≤ (t.timelines y).revision)
    (hlinks : s.childLinks ⊆ t.childLinks) (hcounted : Counted t session y)
    (hrisen : (s.timelines y).revision < (t.timelines y).revision) :
    revisionOf s session < revisionOf t session := by
  have hsubset : ∑ child ∈ linkedChildren s.childLinks session, (s.timelines child).revision
      ≤ ∑ child ∈ linkedChildren t.childLinks session, (s.timelines child).revision :=
    Finset.sum_le_sum_of_subset (linkedChildren_mono hlinks)
  have hown := hrevision session
  unfold revisionOf
  rcases hcounted with rfl | hchild
  · have hchildren : ∑ child ∈ linkedChildren t.childLinks y, (s.timelines child).revision
        ≤ ∑ child ∈ linkedChildren t.childLinks y, (t.timelines child).revision :=
      Finset.sum_le_sum fun child _ => hrevision child
    omega
  · have hchildren : ∑ child ∈ linkedChildren t.childLinks session, (s.timelines child).revision
        < ∑ child ∈ linkedChildren t.childLinks session, (t.timelines child).revision :=
      Finset.sum_lt_sum (fun child _ => hrevision child) ⟨y, hchild, hrisen⟩
    omega

/-- A sum over the same links and revisions. -/
theorem revisionOf_congr (hrevision : ∀ y, (t.timelines y).revision = (s.timelines y).revision)
    (hlinks : ∀ l : ChildLink, l.sessionUuid = session → (l ∈ t.childLinks ↔ l ∈ s.childLinks)) :
    revisionOf t session = revisionOf s session := by
  simp only [revisionOf, hrevision, linkedChildren_congr hlinks]

theorem revisionShare_mono {repo : String}
    (hrevision : ∀ y, (s.timelines y).revision ≤ (t.timelines y).revision) (row : PtySession) :
    revisionShare s repo row ≤ revisionShare t repo row := by
  unfold revisionShare
  split
  · cases row.currentSessionUuid with
    | none => exact le_refl 0
    | some session => exact hrevision session
  · exact le_refl 0

/-! ## A PTY -/

section Pane

variable {pathMatches : String → String → Bool} {filters : ProjectionFilters}

theorem sessionRevision_eq :
    sessionRevision pty s = ((current s pty).map (revisionOf s)).getD 0 := rfl

theorem current_congr (h : t.ptySessions[pty]? = s.ptySessions[pty]?) :
    current t pty = current s pty := by
  rw [current, h]
  rfl

/-- The revision does not fall, and the sessions shown stay as they are. -/
theorem marked_of_unchanged (hpty : t.ptySessions[pty]? = s.ptySessions[pty]?)
    (howner : ∀ session, current s pty = some session →
      t.claudeSessions[session]?.map ClaudeSession.owner
        = s.claudeSessions[session]?.map ClaudeSession.owner)
    (hunchanged : ∀ session, current s pty = some session →
      Unchanged s t session ∧ revisionOf s session ≤ revisionOf t session) :
    Marked (sessionRevision pty) (sessionTimeline pathMatches filters pty) s t := by
  apply Marked.of_le
  · rw [sessionRevision_eq, sessionRevision_eq, current_congr hpty]
    cases hcurrent : current s pty with
    | none => exact le_refl 0
    | some session => exact (hunchanged session hcurrent).2
  · exact sessionTimeline_congr hpty howner fun session h => (hunchanged session h).1

theorem marked_commit {timeline : SessionTimeline} {links : Finset ChildLink}
    {events : List StoredEvent} (hok : KeepsPty pty s (.projectBatch context events))
    (hown : ∀ l ∈ links, OwnLink context l)
    (hrisen : (s.timelines context.sessionUuid).revision < timeline.revision) :
    Marked (sessionRevision pty) (sessionTimeline pathMatches filters pty) s
      (s.commit context.sessionUuid timeline links) := by
  set t := s.commit context.sessionUuid timeline links with ht
  have hlinks : s.childLinks ⊆ t.childLinks := Finset.subset_union_left
  have hself : (s.timelines context.sessionUuid).revision
      < (t.timelines context.sessionUuid).revision := by
    rw [ht, timelines_commit_self]
    exact hrisen
  have hrevision (y : Uuid) : (s.timelines y).revision ≤ (t.timelines y).revision := by
    by_cases hy : y = context.sessionUuid
    · rw [hy]
      exact hself.le
    · rw [ht, timelines_commit_of_ne hy]
  cases hcurrent : current s pty with
  | none =>
      refine marked_of_unchanged (s := s) (t := t) rfl (fun _ _ => rfl) ?_
      intro session hsession
      rw [hcurrent] at hsession
      cases hsession
  | some session =>
      by_cases hcounted : Counted t session context.sessionUuid
      · apply Marked.of_lt
        have hlt := revisionOf_lt hrevision hlinks hcounted hself
        have hcurrent' : current t pty = some session := hcurrent
        rw [sessionRevision_eq, sessionRevision_eq, hcurrent, hcurrent']
        exact hlt
      · -- The session is not counted even with its new links, so it is not shown either.
        have hnot : ¬ Counted s session context.sessionUuid := by
          intro h
          exact hcounted (h.imp_right fun h => linkedChildren_mono hlinks h)
        obtain ⟨hshown, hparents⟩ := (hok session hcurrent).resolve_left hnot
        have hnew : ∀ l ∈ links, ¬ Shown s session l.sessionUuid := by
          intro l hl hl'
          rcases hown l hl with heq | ⟨hparent, hchild⟩
          · exact hshown (heq ▸ hl')
          · rcases hparents _ hparent with heq | hnotShown
            · apply hcounted
              right
              apply mem_linkedChildren_iff.mpr
              refine ⟨l, Finset.mem_union_right _ hl, heq, ?_, hchild⟩
              rw [hchild, heq]
              intro hsame
              exact hshown (Or.inl hsame)
            · exact hnotShown hl'
        refine marked_of_unchanged (s := s) (t := t) rfl (fun _ _ => rfl) ?_
        intro session' hsession'
        rw [hcurrent] at hsession'
        cases hsession'
        exact ⟨unchanged_commit hshown hnew, revisionOf_le hrevision hlinks⟩

theorem marked_commit_same {timeline : SessionTimeline} (h : timeline.Same (s.timelines y)) :
    Marked (sessionRevision pty) (sessionTimeline pathMatches filters pty) s
      (s.commit y timeline ∅) := by
  refine marked_of_unchanged (s := s) (t := s.commit y timeline ∅) rfl (fun _ _ => rfl) ?_
  intro session _
  refine ⟨unchanged_commit_same h, revisionOf_le ?_ Finset.subset_union_left⟩
  intro y'
  by_cases hy : y' = y
  · rw [hy, timelines_commit_self, h.1]
  · rw [timelines_commit_of_ne hy]

theorem Clears.marked (h : Clears y s t)
    (hshown : ∀ session, current s pty = some session → ¬ Shown s session y) :
    Marked (sessionRevision pty) (sessionTimeline pathMatches filters pty) s t := by
  apply marked_of_unchanged (by rw [h.ptys])
  · intro session _
    obtain ⟨cs, purged, hcs, hsessions⟩ := h.session
    have howner : ClaudeSession.owner { cs with purged := purged } = cs.owner := rfl
    rw [hsessions]
    exact owner_insert hcs howner session
  · intro session hsession
    have hnot := hshown session hsession
    refine ⟨h.unchanged hnot, (revisionOf_congr h.revision ?_).ge⟩
    intro l hl
    apply h.links
    intro heq
    exact hnot (Or.inl (heq.symm.trans hl))

/-- **One step and a PTY's revision.** -/
theorem marked_step {action : Step} (hok : KeepsPty pty s action)
    (hstep : step s action = some t) :
    Marked (sessionRevision pty) (sessionTimeline pathMatches filters pty) s t := by
  cases action with
  | projectBatch context events =>
      obtain ⟨timeline, links, rfl, hown, -, hrisen | ⟨hsame, rfl⟩⟩ := projectBatch_commits hstep
      · exact marked_commit hok hown hrisen
      · exact marked_commit_same hsame
  | requestRebuild session =>
      cases hstep
      rw [setTimeline_eq_commit]
      exact marked_commit_same ⟨rfl, .refl _⟩
  | ingest session codexSubagent =>
      cases hstep
      rw [setTimeline_eq_commit]
      exact marked_commit_same ⟨rfl, .refl _⟩
  | nameSession session pty' agent now =>
      cases hstep
      refine marked_of_unchanged (s := s) (t := nameSession s session pty' agent now) rfl ?_ ?_
      · intro session' hcurrent
        show (s.claudeSessions.insert session _)[session']?.map _ = _
        by_cases hs : session = session'
        · obtain ⟨cs, hcs, rfl, hpty⟩ := hok (hs ▸ hcurrent)
          apply owner_insert hcs
          simp only [ClaudeSession.owner, hpty]
        · rw [Table.lookup_insert, if_neg hs]
      · intro session' _
        exact ⟨.of_eq rfl rfl, le_rfl⟩
  | releaseElsewhere session pty' =>
      cases hstep
      refine marked_of_unchanged (s := s) (t := releaseElsewhere s session pty') ?_
        (fun _ _ => rfl) ?_
      · show (s.ptySessions.map _)[pty]? = s.ptySessions[pty]?
        rw [Std.ExtTreeMap.getElem?_map]
        cases hrow : s.ptySessions[pty]? with
        | none => rfl
        | some row =>
            rw [Option.map_some, if_neg]
            rintro ⟨hsession, hne⟩
            apply hok (Ne.symm hne)
            rw [current, hrow]
            exact hsession
      · intro session' _
        exact ⟨.of_eq rfl rfl, le_rfl⟩
  | setCurrent session pty' =>
      cases hstep
      have hreads : ∀ session', Unchanged s (setCurrent s session pty') session' ∧
          revisionOf s session' ≤ revisionOf (setCurrent s session pty') session' := fun _ =>
        ⟨.of_eq rfl rfl, le_rfl⟩
      by_cases hpty : pty' = pty
      · subst hpty
        cases hrow : s.ptySessions[pty']? with
        | none =>
            refine marked_of_unchanged (s := s) (t := setCurrent s session pty') ?_
              (fun _ _ => rfl) fun session' _ => hreads session'
            show (s.ptySessions.modify pty' _)[pty']? = _
            rw [Table.lookup_modify, if_pos rfl, hrow]
            rfl
        | some row =>
            rcases hok rfl with hsame | hlt
            · refine marked_of_unchanged (s := s) (t := setCurrent s session pty') ?_
                (fun _ _ => rfl) fun session' _ => hreads session'
              have hcurrent : row.currentSessionUuid = some session := by
                rw [current, hrow] at hsame
                exact hsame
              show (s.ptySessions.modify pty' _)[pty']? = _
              rw [Table.lookup_modify, if_pos rfl, hrow, Option.map_some, ← hcurrent]
            · apply Marked.of_lt
              have hcurrent : current (setCurrent s session pty') pty' = some session := by
                show (s.ptySessions.modify pty' _)[pty']?.bind _ = _
                rw [Table.lookup_modify, if_pos rfl, hrow]
                rfl
              rw [sessionRevision_eq (s := setCurrent s session pty'), hcurrent]
              exact hlt
      · refine marked_of_unchanged (s := s) (t := setCurrent s session pty') ?_
          (fun _ _ => rfl) fun session' _ => hreads session'
        show (s.ptySessions.modify pty' _)[pty]? = _
        rw [Table.lookup_modify, if_neg hpty]
  | purge session => exact (purgeSession_clears hstep).marked hok
  | withdraw session => exact (withdrawAndClear_clears hstep).marked hok

end Pane

/-! ## A repository -/

section Repo

variable {repo : String}

/-- The session's row makes it one of the repository's timeline. -/
def isListed (s : Store) (repo : String) (session : Uuid) (cs : ClaudeSession) : Bool :=
  inRepo s repo cs && !(s.timelines session).codexSubagent

theorem repoSessions_eq : repoSessions s repo
    = (s.claudeSessions.filter (isListed s repo)).toList.insertionSort
        fun a b => (compare (a.2.startedAt, a.1) (b.2.startedAt, b.1)).isLE := by
  rw [repoSessions, Std.ExtTreeMap.toList_filter]
  rfl

/-- The rows that are listed are the same. -/
theorem repoSessions_congr
    (h : ∀ session, (t.claudeSessions[session]?).filter (isListed t repo session)
      = (s.claudeSessions[session]?).filter (isListed s repo session)) :
    repoSessions t repo = repoSessions s repo := by
  have hfilter : t.claudeSessions.filter (isListed t repo)
      = s.claudeSessions.filter (isListed s repo) := by
    apply Table.ext
    intro session
    rw [Std.ExtTreeMap.getElem?_filter', Std.ExtTreeMap.getElem?_filter']
    exact h session
  rw [repoSessions_eq, repoSessions_eq, hfilter]

theorem listed_of_mem {e : Uuid × ClaudeSession} (h : e ∈ repoSessions s repo) :
    Listed s repo e.1 := by
  rw [repoSessions_eq, List.mem_insertionSort, Std.ExtTreeMap.mem_toList_iff_getElem?_eq_some,
    Std.ExtTreeMap.getElem?_filter', Option.filter_eq_some_iff, isListed, Bool.and_eq_true,
    Bool.not_eq_true'] at h
  exact ⟨e.2, h.1, h.2.1, h.2.2⟩

theorem filter_isListed_of_elsewhere (h : Elsewhere s repo session) :
    (s.claudeSessions[session]?).filter (isListed s repo session) = none := by
  apply Option.filter_eq_none_iff.mpr
  intro cs hcs
  rw [isListed, h cs hcs]
  exact Bool.false_ne_true

/-- The PTYs and the links of sessions stay where they are. -/
theorem inRepo_congr (h : t.ptySessions = s.ptySessions) (cs : ClaudeSession) :
    inRepo t repo cs = inRepo s repo cs := by
  unfold inRepo
  rw [h]

/-- The statements of a correlation move no PTY to another repository. -/
theorem inRepo_setCurrent {pty : Uuid} (cs : ClaudeSession) :
    inRepo (setCurrent s session pty) repo cs = inRepo s repo cs := by
  unfold inRepo
  congr 1
  funext pty'
  show ((s.ptySessions.modify pty _)[pty']?).any _ = _
  rw [Table.lookup_modify]
  by_cases hpty : pty = pty'
  · rw [if_pos hpty, hpty]
    cases s.ptySessions[pty']? with
    | none => rfl
    | some row => rfl
  · rw [if_neg hpty]

theorem inRepo_releaseElsewhere {pty : Uuid} (cs : ClaudeSession) :
    inRepo (releaseElsewhere s session pty) repo cs = inRepo s repo cs := by
  unfold inRepo
  congr 1
  funext pty'
  show ((s.ptySessions.map _)[pty']?).any _ = _
  rw [Std.ExtTreeMap.getElem?_map]
  cases s.ptySessions[pty']? with
  | none => rfl
  | some row =>
      rw [Option.map_some]
      split
      · rfl
      · rfl

theorem repoRevision_le (hptys : t.ptySessions = s.ptySessions)
    (hrevision : ∀ y, (s.timelines y).revision ≤ (t.timelines y).revision) :
    repoRevision repo s ≤ repoRevision repo t := by
  unfold repoRevision
  rw [hptys]
  apply Table.total_le_total
  intro _ row _
  exact revisionShare_mono hrevision row

variable {pathMatches : String → String → Bool} {filters : ProjectionFilters}

/-- The revision does not fall, and the sessions listed and shown stay as they are. -/
theorem repo_marked_of_unchanged (hrevision : repoRevision repo s ≤ repoRevision repo t)
    (hlisted : ∀ session, (t.claudeSessions[session]?).filter (isListed t repo session)
      = (s.claudeSessions[session]?).filter (isListed s repo session))
    (hunchanged : ∀ session, Listed s repo session → Unchanged s t session) :
    Marked (repoRevision repo) (repoTimeline pathMatches filters repo) s t :=
  .of_le hrevision
    (repoTimeline_congr (repoSessions_congr hlisted) fun _ he => hunchanged _ (listed_of_mem he))

/-- A commit of one session, whose links are unlike those of the sessions shown. -/
theorem repo_marked_commit {timeline : SessionTimeline} {links : Finset ChildLink}
    (hrevision : (s.timelines y).revision ≤ timeline.revision)
    (hcodex : timeline.codexSubagent = (s.timelines y).codexSubagent ∨ Elsewhere s repo y)
    (hunchanged : ∀ session, Listed s repo session →
      Unchanged s (s.commit y timeline links) session) :
    Marked (repoRevision repo) (repoTimeline pathMatches filters repo) s
      (s.commit y timeline links) := by
  refine repo_marked_of_unchanged (s := s) (t := s.commit y timeline links) ?_ ?_ hunchanged
  · refine repoRevision_le (s := s) (t := s.commit y timeline links) rfl ?_
    intro y'
    by_cases hy : y' = y
    · rw [hy, timelines_commit_self]
      exact hrevision
    · rw [timelines_commit_of_ne hy]
  · intro session
    show (s.claudeSessions[session]?).filter _ = _
    by_cases hy : session = y
    · subst hy
      rcases hcodex with hsame | helsewhere
      · have hlisted : isListed (s.commit session timeline links) repo session
            = isListed s repo session := by
          funext cs
          rw [isListed, isListed, timelines_commit_self, hsame]
          rfl
        rw [hlisted]
      · have hthere : Elsewhere (s.commit session timeline links) repo session := helsewhere
        rw [filter_isListed_of_elsewhere helsewhere]
        exact filter_isListed_of_elsewhere hthere
    · have hlisted : isListed (s.commit y timeline links) repo session
          = isListed s repo session := by
        funext cs
        rw [isListed, isListed, timelines_commit_of_ne hy]
        rfl
      rw [hlisted]

theorem repo_marked_projectBatch {events : List StoredEvent}
    (hok : KeepsRepo repo s (.projectBatch context events))
    (hstep : projectBatch s context events = some t) :
    Marked (repoRevision repo) (repoTimeline pathMatches filters repo) s t := by
  obtain ⟨timeline, links, rfl, hown, hcodex, hrisen | ⟨hsame, rfl⟩⟩ := projectBatch_commits hstep
  · rcases hok with ⟨pty, row, ⟨hrow, hrepo, hstate⟩, hcurrent⟩ | ⟨hshown, hparents⟩
    · apply Marked.of_lt
      show Table.total _ s.ptySessions < Table.total _ s.ptySessions
      apply Table.total_lt_total hrow
      · rw [revisionShare, revisionShare, if_pos ⟨hrepo, hstate⟩, if_pos ⟨hrepo, hstate⟩, hcurrent]
        show (s.timelines context.sessionUuid).revision
          < ((s.commit context.sessionUuid timeline links).timelines context.sessionUuid).revision
        rw [timelines_commit_self]
        exact hrisen
      · intro _ row' _
        apply revisionShare_mono
        intro y'
        by_cases hy : y' = context.sessionUuid
        · rw [hy, timelines_commit_self]
          exact hrisen.le
        · rw [timelines_commit_of_ne hy]
    · apply repo_marked_commit hrisen.le (Or.inl hcodex)
      intro session hlisted
      apply unchanged_commit
      · intro h
        exact hshown ⟨session, hlisted, h⟩
      · intro l hl h
        rcases hown l hl with heq | ⟨hparent, -⟩
        · exact hshown ⟨session, hlisted, heq ▸ h⟩
        · exact hparents _ hparent ⟨session, hlisted, h⟩
  · exact repo_marked_commit hsame.1.ge (Or.inl hcodex) fun _ _ => unchanged_commit_same hsame

theorem Clears.repo_marked (h : Clears y s t) (helsewhere : Elsewhere s repo y)
    (hshown : ¬ ShownInRepo s repo y) :
    Marked (repoRevision repo) (repoTimeline pathMatches filters repo) s t := by
  apply repo_marked_of_unchanged
  · exact repoRevision_le h.ptys fun y' => (h.revision y').ge
  · intro session
    obtain ⟨cs, purged, hcs, hsessions⟩ := h.session
    by_cases hy : session = y
    · have hthere : Elsewhere t repo session := by
        intro cs' hcs'
        rw [hy, hsessions, Table.lookup_insert_self, Option.some.injEq] at hcs'
        rw [inRepo_congr h.ptys, ← hcs']
        exact helsewhere cs hcs
      rw [filter_isListed_of_elsewhere hthere, filter_isListed_of_elsewhere (hy ▸ helsewhere)]
    · have hlisted : isListed t repo session = isListed s repo session := by
        funext cs'
        rw [isListed, isListed, h.timelines session hy, inRepo_congr h.ptys]
      rw [hsessions, Table.lookup_insert_ne _ _ (Ne.symm hy), hlisted]
  · intro session hlisted
    apply h.unchanged
    intro hy
    exact hshown ⟨session, hlisted, hy⟩

/-- The third statement of a correlation takes the place of one share. -/
theorem repoRevision_setCurrent_le {pty' : Uuid}
    (hok : KeepsRepo repo s (.setCurrent session pty')) :
    repoRevision repo s ≤ repoRevision repo (setCurrent s session pty') := by
  show Table.total (revisionShare s repo) s.ptySessions
    ≤ Table.total (revisionShare s repo) (s.ptySessions.modify pty' _)
  cases hrow : s.ptySessions[pty']? with
  | none =>
      have hsame : s.ptySessions.modify pty' (fun row =>
          { row with currentSessionUuid := some session }) = s.ptySessions := by
        apply Table.ext
        intro k
        rw [Table.lookup_modify]
        by_cases hk : pty' = k
        · rw [if_pos hk, ← hk, hrow]
          rfl
        · rw [if_neg hk]
      rw [hsame]
  | some row =>
      have hshare : revisionShare s repo row
          ≤ revisionShare s repo { row with currentSessionUuid := some session } := by
        by_cases hadds : row.repo = repo ∧ row.state ≠ .deleted
        · have hle := hok row ⟨hrow, hadds.1, hadds.2⟩
          calc revisionShare s repo row ≤ (s.timelines session).revision := hle
            _ = revisionShare s repo { row with currentSessionUuid := some session } := by
                rw [revisionShare, if_pos hadds]
                rfl
        · rw [revisionShare, if_neg hadds]
          exact Nat.zero_le _
      have htotal := Table.total_modify (revisionShare s repo) hrow fun row =>
        { row with currentSessionUuid := some session }
      omega

/-- **One step and a repository's revision.** -/
theorem repo_marked_step {action : Step} (hok : KeepsRepo repo s action)
    (hstep : step s action = some t) :
    Marked (repoRevision repo) (repoTimeline pathMatches filters repo) s t := by
  cases action with
  | projectBatch context events => exact repo_marked_projectBatch hok hstep
  | requestRebuild session =>
      cases hstep
      rw [setTimeline_eq_commit]
      exact repo_marked_commit le_rfl (Or.inl rfl) fun _ _ => unchanged_commit_same ⟨rfl, .refl _⟩
  | ingest session codexSubagent =>
      cases hstep
      rw [setTimeline_eq_commit]
      refine repo_marked_commit le_rfl (hok.imp_left Eq.symm) fun _ _ =>
        unchanged_commit_same ⟨rfl, .refl _⟩
  | nameSession session pty agent now =>
      cases hstep
      refine repo_marked_of_unchanged (s := s) (t := nameSession s session pty agent now) le_rfl ?_
        fun _ _ => .of_eq rfl rfl
      intro session'
      show ((s.claudeSessions.insert session _)[session']?).filter _ = _
      by_cases hs : session = session'
      · subst hs
        rw [Table.lookup_insert_self]
        rcases hok with ⟨cs, hcs, rfl, hpty⟩ | ⟨helsewhere, hpty⟩
        · -- The row is the one that is there.
          simp only [hcs, Option.map_some, Option.getD_some, ← hpty]
          rfl
        · rw [filter_isListed_of_elsewhere helsewhere, Option.filter_eq_none_iff]
          intro cs hcs
          rw [Option.some.injEq] at hcs
          subst hcs
          have hrepo : inRepo (nameSession s session pty agent now) repo
              { agent := agent
                ptySessionId := some pty
                startedAt := (s.claudeSessions[session]?.map ClaudeSession.startedAt).getD now
                purged := (s.claudeSessions[session]?.map ClaudeSession.purged).getD false }
              = false := by
            show (s.ptySessions[pty]?).any _ = false
            cases hrow : s.ptySessions[pty]? with
            | none => rfl
            | some row => exact decide_eq_false (hpty row hrow)
          rw [isListed, hrepo]
          exact Bool.false_ne_true
      · rw [Table.lookup_insert_ne _ _ hs]
        rfl
  | releaseElsewhere session pty =>
      cases hstep
      refine repo_marked_of_unchanged (s := s) (t := releaseElsewhere s session pty) ?_ ?_
        fun _ _ => .of_eq rfl rfl
      · apply le_of_eq
        symm
        show Table.total (revisionShare s repo) (s.ptySessions.map _)
          = Table.total (revisionShare s repo) s.ptySessions
        apply Table.total_map_of_eq
        intro pty' row hrow
        split
        · rename_i hreleased
          have hnot : ¬ (row.repo = repo ∧ row.state ≠ .deleted) := by
            intro hadds
            exact hreleased.2 (hok pty' row ⟨hrow, hadds.1, hadds.2⟩ hreleased.1)
          rw [revisionShare, revisionShare, if_neg hnot, if_neg hnot]
        · rfl
      · intro session'
        congr 1
        funext cs
        rw [isListed, isListed, inRepo_releaseElsewhere]
        rfl
  | setCurrent session pty =>
      cases hstep
      refine repo_marked_of_unchanged (s := s) (t := setCurrent s session pty)
        (repoRevision_setCurrent_le hok) ?_ fun _ _ => .of_eq rfl rfl
      intro session'
      congr 1
      funext cs
      rw [isListed, isListed, inRepo_setCurrent]
      rfl
  | purge session => exact (purgeSession_clears hstep).repo_marked hok.1 hok.2
  | withdraw session => exact (withdrawAndClear_clears hstep).repo_marked hok.1 hok.2

end Repo

/-! ## Runs -/

/-- **An equal revision hides no change**, for a PTY or a repository, from any store on, where
every step is one that the revision accounts for. -/
theorem timeline_revision_hides_no_change (pathMatches : String → String → Bool)
    (filters : ProjectionFilters) {s t : Store} :
    (∀ pty, Run step (KeepsPty pty) s t → sessionRevision pty s = sessionRevision pty t →
      sessionTimeline pathMatches filters pty s = sessionTimeline pathMatches filters pty t) ∧
    ∀ repo, Run step (KeepsRepo repo) s t → repoRevision repo s = repoRevision repo t →
      repoTimeline pathMatches filters repo s = repoTimeline pathMatches filters repo t := by
  constructor
  · intro pty hrun heq
    exact hrun.content_eq_of_marker_eq (fun _ _ _ hok hstep => marked_step hok hstep) heq
  · intro repo hrun heq
    exact hrun.content_eq_of_marker_eq (fun _ _ _ hok hstep => repo_marked_step hok hstep) heq

/-- One pane of a repository, with no session yet. -/
def pane : Store :=
  .new (Table.ofRows [(1, ⟨"sulion", .live, none⟩)])

def plainContext (session : Uuid) : Context := ⟨session, none, none, fun _ => none⟩

def prompt (text : String) : StoredEvent :=
  plainEvent 0 "user" [{ ord := 0, kind := .text, text := some text }]

/-- A session of the pane with one prompt. -/
def promptSession (session : Uuid) (text : String) : List Step :=
  [.nameSession session 1 "claude-code" 0, .projectBatch (plainContext session) [prompt text]]

/-- The first session becomes the pane's; another session's batch then leaves its summary alone. -/
theorem timeline_revision_hides_no_change_pane :
    ∃ s, Run step anyStep pane s ∧ ∃ t, Run step (KeepsPty 1) s t ∧
      (s.timelines 6).revision < (t.timelines 6).revision ∧
      sessionTimeline (fun _ _ => false) {} 1 s = sessionTimeline (fun _ _ => false) {} 1 t ∧
      ∃ u, Run step (KeepsRepo "sulion") s u ∧
        repoTimeline (fun _ _ => false) {} "sulion" s
          = repoTimeline (fun _ _ => false) {} "sulion" u := by
  have hopened : ∃ s ∈ runList step pane (promptSession 5 "list the files" ++ [.setCurrent 5 1]),
      current s 1 = some 5 ∧
        ∃ t ∈ step s (.nameSession 6 2 "codex" 0), ∃ v ∈ step t (.projectBatch (plainContext 6) []),
          (current t 1 = some 5 ∧ (6 : Uuid) ∉ down t.childLinks 5) ∧
          (s.timelines 6).revision < (v.timelines 6).revision ∧
          sessionRevision 1 s = sessionRevision 1 v ∧
          ∃ u ∈ step s (.requestRebuild 5), repoRevision "sulion" s = repoRevision "sulion" u := by
    decide +kernel
  obtain ⟨s, hs, hcurrent, t, ht, v, hv, ⟨hcurrent', hdown⟩, hrisen, heq, u, hu, hsame⟩ := hopened
  have hnamed : KeepsPty 1 s (.nameSession 6 2 "codex" 0) := by
    intro h
    rw [hcurrent] at h
    exact absurd h (by decide)
  have hprojected : KeepsPty 1 t (.projectBatch (plainContext 6) []) := by
    intro session h
    rw [hcurrent', Option.some.injEq] at h
    subst h
    right
    refine ⟨?_, fun parent hparent => nomatch hparent⟩
    rintro (h | h)
    · exact absurd h (by decide)
    · exact hdown h
  have hrun : Run step (KeepsPty 1) s v := ((Run.refl s).snoc hnamed ht).snoc hprojected hv
  have hrequested : KeepsRepo "sulion" s (.requestRebuild 5) := trivial
  have hrebuild : Run step (KeepsRepo "sulion") s u := (Run.refl s).snoc hrequested hu
  exact ⟨s, .of_runList _ hs, v, hrun, hrisen,
    (timeline_revision_hides_no_change _ {}).1 1 hrun heq, u, hrebuild,
    (timeline_revision_hides_no_change _ {}).2 "sulion" hrebuild hsame⟩

/-- **A pane that changes its session**: another session of as many batches has the same revision,
for the PTY as for its repository, and other turns. -/
theorem timeline_revision_hides_session :
    ∃ s t, Run step anyStep pane s ∧ Run step anyStep s t ∧
      (sessionRevision 1 s = sessionRevision 1 t ∧
        sessionTimeline (fun _ _ => false) {} 1 s ≠ sessionTimeline (fun _ _ => false) {} 1 t) ∧
      repoRevision "sulion" s = repoRevision "sulion" t ∧
        repoTimeline (fun _ _ => false) {} "sulion" s
          ≠ repoTimeline (fun _ _ => false) {} "sulion" t := by
  have hrun : ∃ s ∈ runList step pane (promptSession 5 "list the files" ++ [.setCurrent 5 1]),
      ∃ t ∈ runList step s (promptSession 6 "run the tests" ++
        [.releaseElsewhere 6 1, .setCurrent 6 1]),
      (sessionRevision 1 s = sessionRevision 1 t ∧
        sessionTimeline (fun _ _ => false) {} 1 s ≠ sessionTimeline (fun _ _ => false) {} 1 t) ∧
      repoRevision "sulion" s = repoRevision "sulion" t ∧
        repoTimeline (fun _ _ => false) {} "sulion" s
          ≠ repoTimeline (fun _ _ => false) {} "sulion" t := by
    decide +kernel
  obtain ⟨s, hs, t, ht, hhidden⟩ := hrun
  exact ⟨s, t, .of_runList _ hs, .of_runList _ ht, hhidden⟩

end Sulion.Timeline.Summaries
