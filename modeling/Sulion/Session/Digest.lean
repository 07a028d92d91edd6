import Sulion.Session.ExportedHistory

set_option autoImplicit false

/-! # The turn digest of a purged session

A purge leaves the rows of `timeline_turns` as the only record of the session. A projection
batch clears those rows when the state row's version is not the reducer's, and it checks
`purged_at` before its transaction, not in it.

A purge finds the version current, so the digest can only be cleared after a rebuild request
has reached the purged session. `purged_digest_kept` says that this is the only way: no step
but a restore's withdrawal removes a turn row of a purged session, as long as no batch locks
the row of a purged session on which a rebuild request has landed.
-/

namespace Sulion.Session

open Rust Ingest Transition

/-- A batch does not start on a purged session for which a rebuild was requested since its
purge. -/
def batchesBeforeRequest (s : State) : Step → Prop
  | .loadBatch _ _ => ¬ (s.purged = true ∧ s.rebuildLanded = true)
  | _ => True

/-- Every export has lines. -/
structure ExportsNonempty (s : State) : Prop where
  recorded : ∀ columns, s.archive = some columns → 0 < columns.archiveEvents
  streamed : ∀ key lines, s.archiver = .streamed key lines → 0 < lines.length
  uploaded : ∀ key lines, s.archiver = .uploaded key lines → 0 < lines.length

/-- The version of a purged session is current until a rebuild is requested, and a batch
that clears the projection holds the lock of a session that is not purged. -/
structure DigestGuarded (s : State) : Prop where
  current : s.purged = true → s.rebuildLanded = false →
    ∃ c, s.cursor = some c ∧ c.projectionVersion = reducerVersion
  clearing : ∀ b, s.batch = some b → b.cleared = true →
    s.purged = false ∧ ∀ c, s.cursor = some c → c.projectionVersion ≠ reducerVersion

variable {parse : List UInt8 → Option Json} {sha256 : ArchiveLines → String} {s s' : State}

theorem ExportsNonempty.of_archiver (h : ExportsNonempty s) (harchive : s'.archive = s.archive)
    (hs : ∀ key lines, s'.archiver = .streamed key lines → 0 < lines.length)
    (hu : ∀ key lines, s'.archiver = .uploaded key lines → 0 < lines.length) :
    ExportsNonempty s' :=
  ⟨harchive ▸ h.recorded, hs, hu⟩

theorem exportsNonempty_preserved {ok : State → Step → Prop} :
    Preserved (sessionStep parse sha256) ok ExportsNonempty := by
  intro s a s' h _ hstep
  by_cases ha : a.task = .archive
  · cases a with
    | streamEvents key =>
        simp only [sessionStep, streamEvents] at hstep
        split at hstep
        · split at hstep
          · cases hstep
            exact h.of_archiver rfl (by simp) (by simp)
          · rename_i hcount
            cases hstep
            refine h.of_archiver rfl (fun key' lines hk => ?_) (by simp)
            cases hk
            exact Nat.pos_of_ne_zero hcount
        · cases hstep
    | putObject =>
        simp only [sessionStep, putObject] at hstep
        split at hstep
        · rename_i key lines hk
          cases hstep
          refine h.of_archiver rfl (by simp) fun key' lines' hk' => ?_
          cases hk'
          exact h.streamed key lines hk
        · cases hstep
    | recordExport =>
        simp only [sessionStep, recordExport] at hstep
        split at hstep
        · rename_i key lines hk
          cases hstep
          refine ⟨fun columns hcolumns => ?_, by simp, by simp⟩
          cases hcolumns
          exact h.uploaded key lines hk
        · cases hstep
    | selectExport =>
        simp only [sessionStep, selectExport] at hstep
        split at hstep
        · split at hstep <;> cases hstep
          exact h.of_archiver rfl (by simp) (by simp)
        · cases hstep
    | purgeSession =>
        simp only [sessionStep, purgeSession] at hstep
        split at hstep
        · rename_i hidle
          split at hstep <;> cases hstep
          exact h.of_archiver rfl (by simp [State.withEvents, hidle])
            (by simp [State.withEvents, hidle])
        · cases hstep
    | fetchObject =>
        obtain ⟨lines, rfl⟩ := fetchObject_eq hstep
        exact h.of_archiver rfl (by simp) (by simp)
    | withdrawAndClear =>
        simp only [sessionStep, withdrawAndClear] at hstep
        split at hstep
        · split at hstep <;> cases hstep
          exact h.of_archiver rfl (by simp) (by simp)
        · cases hstep
    | replayLine =>
        simp only [sessionStep, replayLine] at hstep
        split at hstep <;> cases hstep
        exact h.of_archiver rfl (by simp) (by simp)
    | endRestore =>
        simp only [sessionStep, endRestore] at hstep
        split at hstep <;> cases hstep
        exact h.of_archiver rfl (by simp) (by simp)
    | stopArchiver =>
        cases hstep
        exact h.of_archiver rfl (by simp) (by simp)
    | _ => cases ha
  · have hs := sameArchive_of_task hstep ha
    exact ⟨hs.archive ▸ h.recorded, hs.archiver ▸ h.streamed, hs.archiver ▸ h.uploaded⟩

/-- **A purge finds the timeline current.** -/
theorem purgeSession_eq (hs : ExportsNonempty s) (h : purgeSession s = some s') :
    (∃ c, s.cursor = some c ∧ c.projectionVersion = reducerVersion) ∧ s.purged = false ∧
      s.archiver = .idle ∧
      s' = { s.withEvents ∅ with purged := true, rebuildLanded := false } := by
  unfold purgeSession at h
  split at h
  · rename_i hidle
    split at h
    · rename_i hcheck
      cases h
      rw [Bool.and_eq_true, lockAndCheck, Bool.and_eq_true] at hcheck
      obtain ⟨⟨hpurged, harchive⟩, hcurrent⟩ := hcheck
      refine ⟨?_, by simpa using hpurged, hidle, rfl⟩
      -- The exported events are still there, so the timeline has a row for them.
      obtain ⟨columns, hcolumns, hcount⟩ := Option.any_eq_true _ _ |>.mp harchive
      have hpos := hs.recorded columns hcolumns
      have hsome : s.tail.events.toList.isEmpty = false := by
        have hlen : columns.archiveEvents = s.eventCount := by simpa using hcount
        rw [hlen, State.eventCount] at hpos
        cases hl : s.tail.events.toList with
        | nil => simp [hl] at hpos
        | cons e rest => rfl
      rw [projectionCurrent, hsome, Bool.false_or] at hcurrent
      obtain ⟨c, hc, hversion⟩ := Option.any_eq_true _ _ |>.mp hcurrent
      rw [Bool.and_eq_true] at hversion
      exact ⟨c, hc, by simpa using hversion.1⟩
    · cases h
  · cases h

theorem digestGuarded_requestRebuild (hstep : requestRebuild s = some s') : DigestGuarded s' := by
  obtain ⟨hbatch, rfl⟩ := requestRebuild_eq hstep
  exact ⟨by simp, by simp [hbatch]⟩

theorem digestGuarded_loadBatch (h : DigestGuarded s) {budget : Nat} {turns : Finset Nat}
    (hok : batchesBeforeRequest s (.loadBatch budget turns))
    (hstep : loadBatch s budget turns = some s') : DigestGuarded s' := by
  unfold loadBatch at hstep
  split at hstep
  · cases hstep
  · cases hstep
    refine ⟨h.current, fun b hb hcleared => ?_⟩
    cases hb
    have hversion : (s.cursor.getD .inserted).projectionVersion ≠ reducerVersion := by
      simpa using hcleared
    have hnot : ∀ c, s.cursor = some c → c.projectionVersion ≠ reducerVersion := by
      intro c hc
      simpa [hc] using hversion
    refine ⟨?_, hnot⟩
    by_contra hpurged
    have hlanded : s.rebuildLanded = false := by
      by_contra hl
      exact hok ⟨by simpa using hpurged, by simpa using hl⟩
    obtain ⟨c, hc, hv⟩ := h.current (by simpa using hpurged) hlanded
    exact hnot c hc hv

theorem digestGuarded_preserved :
    ∀ s a s', ExportsNonempty s → DigestGuarded s → batchesBeforeRequest s a →
      sessionStep parse sha256 s a = some s' → DigestGuarded s' := by
  intro s a s' hexp h hok hstep
  by_cases ha : a.writesTimeline = false
  · have hs := sameTimeline_of_not_writes hstep ha
    refine ⟨?_, ?_⟩
    · rw [hs.purged, hs.rebuildLanded, hs.cursor]
      exact h.current
    · rw [hs.purged, hs.batch, hs.cursor]
      exact h.clearing
  · cases a with
    | endPass =>
        simp only [sessionStep, endPass] at hstep
        split at hstep
        · split at hstep
          · exact digestGuarded_requestRebuild hstep
          · cases hstep
            exact ⟨h.current, h.clearing⟩
        · cases hstep
    | markRebuild =>
        simp only [sessionStep, markRebuild] at hstep
        split at hstep
        · cases hstep
        · exact digestGuarded_requestRebuild hstep
    | loadBatch budget turns => exact digestGuarded_loadBatch h hok hstep
    | commitBatch =>
        simp only [sessionStep, commitBatch] at hstep
        split at hstep <;> cases hstep
        exact ⟨fun _ _ => ⟨_, rfl, rfl⟩, by simp⟩
    | purgeSession =>
        obtain ⟨hcurrent, _, _, rfl⟩ := purgeSession_eq hexp hstep
        refine ⟨fun _ _ => hcurrent, fun b hb hcleared => ?_⟩
        obtain ⟨c, hc, hv⟩ := hcurrent
        exact absurd hv ((h.clearing b hb hcleared).2 c hc)
    | withdrawAndClear =>
        simp only [sessionStep, withdrawAndClear] at hstep
        split at hstep
        · split at hstep
          · cases hstep
          · rename_i hbatch
            cases hstep
            exact ⟨by simp, fun b hb => by simp [State.withEvents] at hb; simp [hb] at hbatch⟩
        · cases hstep
    | _ => exact absurd rfl ha

/-- Only a clearing batch and a withdrawal remove turn rows. -/
theorem turns_kept {a : Step} (h : DigestGuarded s) (hpurged : s.purged = true)
    (hne : a ≠ .withdrawAndClear) (hstep : sessionStep parse sha256 s a = some s') :
    s.turns ⊆ s'.turns := by
  by_cases ha : a.writesTimeline = false
  · rw [(sameTimeline_of_not_writes hstep ha).turns]
  · cases a with
    | endPass =>
        simp only [sessionStep, endPass] at hstep
        split at hstep
        · split at hstep
          · obtain ⟨_, rfl⟩ := requestRebuild_eq hstep
            exact Finset.Subset.refl _
          · cases hstep
            exact Finset.Subset.refl _
        · cases hstep
    | markRebuild =>
        simp only [sessionStep, markRebuild] at hstep
        split at hstep
        · cases hstep
        · obtain ⟨_, rfl⟩ := requestRebuild_eq hstep
          exact Finset.Subset.refl _
    | loadBatch budget turns =>
        simp only [sessionStep, loadBatch] at hstep
        split at hstep <;> cases hstep
        exact Finset.Subset.refl _
    | commitBatch =>
        simp only [sessionStep, commitBatch] at hstep
        split at hstep
        · cases hstep
        · rename_i b hb
          cases hstep
          have hkeep : b.cleared = false := by
            by_contra hc
            have := (h.clearing b hb (by simpa using hc)).1
            rw [hpurged] at this
            cases this
          simp [hkeep, Finset.subset_union_left]
    | purgeSession =>
        simp only [sessionStep, purgeSession, lockAndCheck, hpurged] at hstep
        split at hstep
        · simp at hstep
        · cases hstep
    | withdrawAndClear => exact absurd rfl hne
    | _ => exact absurd rfl ha

theorem exportsNonempty_new (file : List UInt8) : ExportsNonempty (.new file) :=
  ⟨by simp [State.new], by simp [State.new], by simp [State.new]⟩

theorem digestGuarded_new (file : List UInt8) : DigestGuarded (.new file) :=
  ⟨by simp [State.new], by simp [State.new]⟩

/-- **The digest survives.** In every run of ingest, projection, rebuild requests and the
archive loop in which no batch starts on a purged session after a rebuild request landed on
it, no step but `withdraw_and_clear` removes a turn row of a purged session. -/
theorem purged_digest_kept (parse : List UInt8 → Option Json) (sha256 : ArchiveLines → String)
    (file : List UInt8) (s : State) (a : Step) (s' : State)
    (hrun : Run (sessionStep parse sha256) batchesBeforeRequest (.new file) s)
    (hpurged : s.purged = true) (hne : a ≠ .withdrawAndClear)
    (hstep : sessionStep parse sha256 s a = some s') : s.turns ⊆ s'.turns :=
  turns_kept
    (hrun.invariant_of exportsNonempty_preserved digestGuarded_preserved
      (exportsNonempty_new file) (digestGuarded_new file))
    hpurged hne hstep

/-! ## A batch that starts too late -/

instance (s : State) (a : Step) : Decidable (batchesBeforeRequest s a) :=
  match a with
  | .loadBatch _ _ => inferInstanceAs (Decidable (¬ _))
  | .append _ | .replace _ | .beginPass _ | .insertLine | .commitOffset | .checkCursor | .endPass
  | .checkBatch | .commitBatch | .checkRebuild | .markRebuild | .selectExport | .streamEvents _
  | .putObject | .recordExport | .purgeSession | .fetchObject | .withdrawAndClear | .replayLine
  | .endRestore | .stopArchiver => isTrue trivial

/-- A projection batch is called, the session is purged, and the batch starts. -/
def lateBatchSteps : List Step :=
  ingestSteps ++ exportSteps ++ [.checkBatch, .purgeSession, .loadBatch 500 ∅]

/-- The batch finds nothing to apply and commits; the turn stays. -/
theorem purged_digest_kept_lateBatch :
    ∃ s, commitBatch (sampleState (.new twoLines) lateBatchSteps) = some s ∧
      (sampleState (.new twoLines) lateBatchSteps).turns = {0} ∧
      (sampleState (.new twoLines) lateBatchSteps).turns ⊆ s.turns :=
  ⟨_, rfl, rfl, purged_digest_kept parseSample sampleSha256 twoLines _ .commitBatch _
    (.of_restrict lateBatchSteps rfl) rfl nofun rfl⟩

/-- A rebuild that passed its purged check before the purge marks the session after it, and a
batch that passed its own check before the purge clears the digest. -/
def lateRebuildSteps : List Step :=
  ingestSteps ++ exportSteps ++
    [.checkBatch, .checkRebuild, .purgeSession, .markRebuild, .loadBatch 500 ∅]

theorem late_rebuild_deletes_digest :
    ∃ s a s', Run (sessionStep parseSample sampleSha256) anyStep (.new twoLines) s ∧
      s.purged = true ∧ a ≠ .withdrawAndClear ∧
      sessionStep parseSample sampleSha256 s a = some s' ∧ ¬ s.turns ⊆ s'.turns :=
  ⟨sampleState (.new twoLines) lateRebuildSteps, .commitBatch, _, .of_runList lateRebuildSteps rfl,
    rfl, nofun, rfl, by decide⟩

end Sulion.Session
