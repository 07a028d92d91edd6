import Sulion.Session.ExportedHistory
import Sulion.Session.Passes

set_option autoImplicit false

/-! # Ingest beside purge and restore

A pass looks at `purged_at` once, at its start; its inserts and its `set_offset` come later.
The export, the purge and the restore may run in between.

`committed_lines_present` is what holds when a pass that meets a purged session inserts no line
but those of the recorded object: every accepted line below the committed offset is in the
events or in the recorded object. Its invariant says, for each control point of the archive
loop, how the recorded object and the events relate (`ArchiveSound`); a purge then finds as
many events as the object has lines, and every line of the object among them, so that the
object holds all of them.
-/

namespace Sulion.Session

open Rust Lines Ingest Transition

/-- The transcript only grows, no insert fails, and the archive loop does not stop half way. -/
def unfailing (s : State) : Step → Prop
  | .replace _ | .stopArchiver => False
  | .insertLine => NextInsertOk s
  | _ => True

/-- The line the pass is about to hand to `insert_event`. -/
def State.nextInsert (s : State) : Option TranscriptLine :=
  match s.running with
  | some ⟨p, line :: _, w, .inserting, _⟩ =>
      if admissionClosed p w.admitted then none else some line
  | _ => none

/-- No step fails, and a line that gets a row while the session is purged is a line of the
recorded object. -/
def insertsKept (parse : List UInt8 → Option Json) (s : State) (a : Step) : Prop :=
  unfailing s a ∧
    (s.purged = true → ∀ line ∈ s.nextInsert, Storable parse line →
      line.start ∈ s.recordedLines.map Prod.fst)

/-- Stored in the events or in the recorded object. -/
def State.Present (s : State) (offset : Nat) : Prop :=
  HasRow s.tail.events offset ∨ offset ∈ s.recordedLines.map Prod.fst

/-- Every line of the recorded object is among the events. -/
def State.Covered (s : State) : Prop :=
  ∀ offset ∈ s.recordedLines.map Prod.fst, HasRow s.tail.events offset

/-- The recorded count is that of the recorded object. -/
def State.Counted (s : State) : Prop :=
  ∀ columns, s.archive = some columns → columns.archiveEvents = s.recordedLines.length

/-- Lines an export has read: present events, and all that is recorded. -/
structure Snapshot (s : State) (lines : ArchiveLines) : Prop where
  nodup : (lines.map Prod.fst).Nodup
  rows : ∀ offset ∈ lines.map Prod.fst, HasRow s.tail.events offset
  recorded : s.recordedLines.map Prod.fst ⊆ lines.map Prod.fst

/-- How events and recorded object relate at each point of the archive loop. -/
def State.AtArchiver (s : State) : Prop :=
  match s.archiver with
  | .idle => s.Counted ∧ (s.purged = false → s.Covered)
  | .selected => s.purged = false ∧ s.Counted ∧ s.Covered
  | .streamed _ lines => s.purged = false ∧ s.Covered ∧ Snapshot s lines
  | .uploaded key lines =>
      s.purged = false ∧ s.Covered ∧ Snapshot s lines ∧ s.objects[key]? = some lines
  | .fetched lines => s.purged = true ∧ s.Counted ∧ lines = s.recordedLines
  | .replaying lines =>
      s.purged = false ∧ s.Counted ∧
        ∀ offset ∈ s.recordedLines.map Prod.fst,
          HasRow s.tail.events offset ∨ offset ∈ lines.map Prod.fst

structure ArchiveSound (s : State) : Prop where
  rows_of_purged : s.purged = true → ∀ k, HasRow s.tail.events k →
    k ∈ s.recordedLines.map Prod.fst
  nodup : (s.recordedLines.map Prod.fst).Nodup
  at_archiver : s.AtArchiver

variable {parse : List UInt8 → Option Json} {sha256 : ArchiveLines → String} {s s' : State}

/-- The other tasks add rows; those added to a purged session are recorded. -/
theorem ArchiveSound.of_task (h : ArchiveSound s) (hs : SameArchive s s')
    (hrows : ∀ k, HasRow s.tail.events k → HasRow s'.tail.events k)
    (hpurged : s.purged = true → ∀ k, HasRow s'.tail.events k →
      HasRow s.tail.events k ∨ k ∈ s.recordedLines.map Prod.fst) : ArchiveSound s' := by
  have hrec := hs.recordedLines
  have hcounted : s.Counted → s'.Counted := by
    intro hc columns hcolumns
    rw [hrec]
    exact hc columns (hs.archive ▸ hcolumns)
  have hcovered : s.Covered → s'.Covered := by
    intro hc k hk
    exact hrows k (hc k (hrec ▸ hk))
  have hsnapshot : ∀ lines, Snapshot s lines → Snapshot s' lines := fun lines hl =>
    ⟨hl.nodup, fun k hk => hrows k (hl.rows k hk), hrec ▸ hl.recorded⟩
  refine ⟨fun hp k hk => ?_, hrec ▸ h.nodup, ?_⟩
  · rw [hs.purged] at hp
    rw [hrec]
    exact (hpurged hp k hk).elim (h.rows_of_purged hp k) id
  · have hat := h.at_archiver
    unfold State.AtArchiver at hat ⊢
    rw [hs.archiver]
    split at hat <;> simp only [hs.purged, hs.objects, hrec]
    · exact ⟨hcounted hat.1, fun hp => hcovered (hat.2 hp)⟩
    · exact ⟨hat.1, hcounted hat.2.1, hcovered hat.2.2⟩
    · exact ⟨hat.1, hcovered hat.2.1, hsnapshot _ hat.2.2⟩
    · exact ⟨hat.1, hcovered hat.2.1, hsnapshot _ hat.2.2.1, hat.2.2.2⟩
    · exact ⟨hat.1, hcounted hat.2.1, hat.2.2⟩
    · exact ⟨hat.1, hcounted hat.2.1, fun k hk => (hat.2.2 k hk).imp_left (hrows k)⟩

/-- A row that was not there before is that of the line the pass has inserted. -/
theorem hasRow_of_step {a : Step} (h : sessionStep parse sha256 s a = some s')
    (ha : a.task ≠ .archive) {k : Nat} (hk : HasRow s'.tail.events k) :
    HasRow s.tail.events k ∨ ∃ line ∈ s.nextInsert, Storable parse line ∧ line.start = k := by
  by_cases hins : a = .insertLine
  · subst hins
    simp only [sessionStep, insertLine] at h
    split at h
    · rename_i p line todo w behind hr
      split at h <;> cases h
      · exact .inl hk
      · rename_i hopen
        refine (hasRow_insertEvent hk).imp_right fun hline => ⟨line, ?_, hline⟩
        simp [State.nextInsert, hr, hopen]
    · cases h
  · rw [events_of_not_insert h ha hins] at hk
    exact .inl hk

theorem mem_offsets_iff {events : Table Nat Json} {k : Nat} :
    k ∈ events.toList.map Prod.fst ↔ HasRow events k := by
  simp only [List.mem_map, Prod.exists, exists_and_right, exists_eq_right, HasRow,
    Option.isSome_iff_exists, Std.ExtTreeMap.mem_toList_iff_getElem?_eq_some]

/-! ## The steps of the archive loop -/

/-- What one step of the archive loop has to preserve. -/
structure ArchiveStepSound (s s' : State) : Prop extends ArchiveSound s' where
  present : ∀ k, s.Present k → s'.Present k

theorem sound_selectExport (h : ArchiveSound s) (hstep : selectExport s = some s') :
    ArchiveStepSound s s' := by
  unfold selectExport at hstep
  split at hstep
  · rename_i hidle
    have hat := h.at_archiver
    rw [State.AtArchiver, hidle] at hat
    split at hstep
    · rename_i hselected
      cases hstep
      exact ⟨⟨h.rows_of_purged, h.nodup, hselected.1, hat.1, hat.2 hselected.1⟩, fun _ => id⟩
    · cases hstep
  · cases hstep

theorem sound_streamEvents {key : String} (h : ArchiveSound s)
    (hstep : streamEvents s key = some s') : ArchiveStepSound s s' := by
  unfold streamEvents at hstep
  split at hstep
  · rename_i hselected
    have hat := h.at_archiver
    rw [State.AtArchiver, hselected] at hat
    obtain ⟨hpurged, hcounted, hcovered⟩ := hat
    split at hstep <;> cases hstep
    · exact ⟨⟨h.rows_of_purged, h.nodup, hcounted, fun _ => hcovered⟩, fun _ => id⟩
    · refine ⟨⟨h.rows_of_purged, h.nodup, hpurged, hcovered, ?_⟩, fun _ => id⟩
      exact ⟨Table.nodup_keys _, fun k => mem_offsets_iff.mp,
        fun k hk => mem_offsets_iff.mpr (hcovered k hk)⟩
  · cases hstep

/-- After the upload the recorded object is the old one or the snapshot. -/
theorem recordedLines_put (s : State) (key : String) (lines : ArchiveLines) (a : Archiver) :
    State.recordedLines { s with objects := s.objects.insert key lines, archiver := a }
        = s.recordedLines ∨
      State.recordedLines
        { s with objects := s.objects.insert key lines, archiver := a } = lines := by
  unfold State.recordedLines
  cases s.archive with
  | none => exact .inl rfl
  | some columns =>
      simp only [Table.lookup_insert]
      split
      · exact .inr rfl
      · exact .inl rfl

theorem sound_putObject (h : ArchiveSound s) (hstep : putObject s = some s') :
    ArchiveStepSound s s' := by
  unfold putObject at hstep
  split at hstep
  · rename_i key lines hstreamed
    have hat := h.at_archiver
    rw [State.AtArchiver, hstreamed] at hat
    obtain ⟨hpurged, hcovered, hsnap⟩ := hat
    cases hstep
    have hobject : (s.objects.insert key lines)[key]? = some lines := Table.lookup_insert_self _ _ _
    have hfalse {P : Prop} (hp : s.purged = true) : P := by simp [hpurged] at hp
    rcases recordedLines_put s key lines (.uploaded key lines) with hrec | hrec
    · refine ⟨⟨hfalse, hrec ▸ h.nodup, hpurged, ?_, ?_, hobject⟩, fun k hk => ?_⟩
      · intro k hk
        rw [hrec] at hk
        exact hcovered k hk
      · exact ⟨hsnap.nodup, hsnap.rows, hrec ▸ hsnap.recorded⟩
      · rw [State.Present, hrec]
        exact hk
    · refine ⟨⟨hfalse, ?_, hpurged, ?_, ?_, hobject⟩, fun k hk => ?_⟩
      · rw [hrec]
        exact hsnap.nodup
      · intro k hk
        rw [hrec] at hk
        exact hsnap.rows k hk
      · refine ⟨hsnap.nodup, hsnap.rows, ?_⟩
        rw [hrec]
        exact List.Subset.refl _
      · rw [State.Present, hrec]
        exact hk.imp_right fun hk => hsnap.recorded hk
  · cases hstep

theorem sound_recordExport (h : ArchiveSound s) (hstep : recordExport sha256 s = some s') :
    ArchiveStepSound s s' := by
  unfold recordExport at hstep
  split at hstep
  · rename_i key lines huploaded
    have hat := h.at_archiver
    rw [State.AtArchiver, huploaded] at hat
    obtain ⟨hpurged, hcovered, hsnap, hobject⟩ := hat
    cases hstep
    have hrec : State.recordedLines { s with
        archive := some ⟨key, sha256 lines, lines.length⟩, archiver := .idle } = lines := by
      simp only [State.recordedLines, hobject, Option.getD_some]
    refine ⟨⟨fun hp => ?_, hrec ▸ hsnap.nodup, ?_, fun _ k hk => ?_⟩, fun k hk => ?_⟩
    · simp [hpurged] at hp
    · intro columns hcolumns
      cases hcolumns
      rw [hrec]
    · rw [hrec] at hk
      exact hsnap.rows k hk
    · rw [State.Present, hrec]
      exact hk.imp_right fun hk => hsnap.recorded hk
  · cases hstep

/-- **A purge loses nothing.** The recorded object has as many lines as there are events, and
they are all events. -/
theorem sound_purgeSession (h : ArchiveSound s) (hstep : purgeSession s = some s') :
    ArchiveStepSound s s' := by
  unfold purgeSession at hstep
  split at hstep
  · rename_i hidle
    have hat := h.at_archiver
    rw [State.AtArchiver, hidle] at hat
    split at hstep
    · rename_i hcheck
      rw [Bool.and_eq_true, lockAndCheck, Bool.and_eq_true] at hcheck
      obtain ⟨⟨hnot, harchive⟩, _⟩ := hcheck
      have hpurged : s.purged = false := by simpa using hnot
      have hcovered := hat.2 hpurged
      obtain ⟨columns, hcolumns, hcount⟩ := (Option.any_eq_true _ _).mp harchive
      have hlen : s.recordedLines.length = s.eventCount := by
        rw [← hat.1 columns hcolumns]
        simpa using hcount
      have hall : ∀ k, HasRow s.tail.events k → k ∈ s.recordedLines.map Prod.fst := by
        have hsub : s.recordedLines.map Prod.fst ⊆ s.tail.events.toList.map Prod.fst :=
          fun k hk => mem_offsets_iff.mpr (hcovered k hk)
        have hperm := List.subperm_of_subset h.nodup hsub
        have := hperm.perm_of_length_le (by simp [hlen, State.eventCount])
        exact fun k hk => this.mem_iff.mpr (mem_offsets_iff.mpr hk)
      cases hstep
      refine ⟨⟨fun _ k hk => by simp [State.withEvents, HasRow] at hk, h.nodup, ?_⟩, fun k hk => ?_⟩
      · simp only [State.AtArchiver, State.withEvents, hidle]
        exact ⟨hat.1, fun hp => by cases hp⟩
      · exact .inr (hk.elim (hall k) id)
    · cases hstep
  · cases hstep

theorem sound_fetchObject (h : ArchiveSound s) (hstep : fetchObject sha256 s = some s') :
    ArchiveStepSound s s' := by
  unfold fetchObject at hstep
  split at hstep
  · rename_i columns hidle hcolumns
    have hat := h.at_archiver
    rw [State.AtArchiver, hidle] at hat
    split at hstep
    · rename_i lines hobject
      split at hstep
      · rename_i hcheck
        cases hstep
        have hpurged : s.purged = true := by
          simp only [Bool.and_eq_true] at hcheck
          exact hcheck.1.1
        refine ⟨⟨h.rows_of_purged, h.nodup, hpurged, hat.1, ?_⟩, fun _ => id⟩
        simp [State.recordedLines, hcolumns, hobject]
      · cases hstep
    · cases hstep
  · cases hstep

theorem sound_withdrawAndClear (h : ArchiveSound s) (hstep : withdrawAndClear s = some s') :
    ArchiveStepSound s s' := by
  unfold withdrawAndClear at hstep
  split at hstep
  · rename_i lines hfetched
    have hat := h.at_archiver
    rw [State.AtArchiver, hfetched] at hat
    obtain ⟨hpurged, hcounted, rfl⟩ := hat
    split at hstep
    · cases hstep
    · cases hstep
      refine ⟨⟨fun hp => (by cases hp), h.nodup, rfl, hcounted, fun k hk => .inr hk⟩,
        fun k hk => ?_⟩
      -- What was inserted while the session was purged is recorded.
      exact .inr (hk.elim (h.rows_of_purged hpurged k) id)
  · cases hstep

theorem sound_replayLine (h : ArchiveSound s) (hstep : replayLine s = some s') :
    ArchiveStepSound s s' := by
  unfold replayLine at hstep
  split at hstep
  · rename_i offset payload lines hreplaying
    have hat := h.at_archiver
    rw [State.AtArchiver, hreplaying] at hat
    obtain ⟨hpurged, hcounted, hpending⟩ := hat
    cases hstep
    refine ⟨⟨fun hp => absurd (hpurged.symm.trans hp) (by simp), h.nodup, hpurged, hcounted,
      fun k hk => ?_⟩, fun k hk => hk.imp_left fun hk => storeEvent_hasRow_iff.mpr (.inl hk)⟩
    rcases hpending k hk with hrow | hmem
    · exact .inl (storeEvent_hasRow_iff.mpr (.inl hrow))
    · rcases List.mem_cons.mp hmem with rfl | hmem
      · exact .inl (storeEvent_hasRow_iff.mpr (.inr rfl))
      · exact .inr hmem
  · cases hstep

theorem sound_endRestore (h : ArchiveSound s) (hstep : endRestore s = some s') :
    ArchiveStepSound s s' := by
  unfold endRestore at hstep
  split at hstep
  · rename_i hreplaying
    have hat := h.at_archiver
    rw [State.AtArchiver, hreplaying] at hat
    cases hstep
    refine ⟨⟨h.rows_of_purged, h.nodup, hat.2.1, fun _ k hk => ?_⟩, fun _ => id⟩
    exact (hat.2.2 k hk).resolve_right (by simp)
  · cases hstep

/-! ## Every run -/

/-- What a run preserves: committed and walked lines are present, and the archive loop's
relation. -/
structure PresentSound (parse : List UInt8 → Option Json) (s : State) : Prop where
  pass : PassSound parse s.Present s
  archive : ArchiveSound s

theorem presentSound_archive {a : Step} (h : PresentSound parse s) (ha : a.task = .archive)
    (hstep : sessionStep parse sha256 s a = some s') (hs : ArchiveStepSound s s') :
    PresentSound parse s' := by
  have hpass := samePass_of_task hstep (.inr ha)
  exact ⟨h.pass.mono hpass.file hpass.lastCommitted hpass.running hs.present, hs.toArchiveSound⟩

theorem presentSound_preserved :
    Preserved (sessionStep parse sha256) (insertsKept parse) (PresentSound parse) := by
  intro s a s' h hok hstep
  by_cases ha : a.task = .archive
  · cases a with
    | selectExport => exact presentSound_archive h ha hstep (sound_selectExport h.archive hstep)
    | streamEvents key => exact presentSound_archive h ha hstep (sound_streamEvents h.archive hstep)
    | putObject => exact presentSound_archive h ha hstep (sound_putObject h.archive hstep)
    | recordExport => exact presentSound_archive h ha hstep (sound_recordExport h.archive hstep)
    | purgeSession => exact presentSound_archive h ha hstep (sound_purgeSession h.archive hstep)
    | fetchObject => exact presentSound_archive h ha hstep (sound_fetchObject h.archive hstep)
    | withdrawAndClear =>
        exact presentSound_archive h ha hstep (sound_withdrawAndClear h.archive hstep)
    | replayLine => exact presentSound_archive h ha hstep (sound_replayLine h.archive hstep)
    | endRestore => exact presentSound_archive h ha hstep (sound_endRestore h.archive hstep)
    | stopArchiver => exact hok.1.elim
    | _ => cases ha
  · have hsame := sameArchive_of_task hstep ha
    have hrows : ∀ k, HasRow s.tail.events k → HasRow s'.tail.events k :=
      fun k => hasRow_of_task hstep ha
    have hpresent : ∀ k, s.Present k → s'.Present k := by
      intro k hk
      rw [State.Present, hsame.recordedLines]
      exact hk.imp_left (hrows k)
    have harchive : ArchiveSound s' := by
      refine h.archive.of_task hsame hrows fun hp k hk => (hasRow_of_step hstep ha hk).imp_right ?_
      rintro ⟨line, hnext, hs, rfl⟩
      exact hok.2 hp line hnext hs
    refine ⟨?_, harchive⟩
    by_cases hproj : a.task = .projection
    · have hpass := samePass_of_task hstep (.inl hproj)
      exact h.pass.mono hpass.file hpass.lastCommitted hpass.running hpresent
    · refine passSound_step h.pass ?_ ?_ hpresent (fun k hk => .inl hk) hstep
      · cases a with
        | append bytes => exact .inr ⟨bytes, rfl⟩
        | replace file => exact hok.1.elim
        | _ => first | exact .inl rfl | exact absurd rfl hproj | exact absurd rfl ha
      · rintro rfl
        exact hok.1

theorem presentSound_new (file : List UInt8) : PresentSound parse (.new file) where
  pass := passSound_new file
  archive :=
    { rows_of_purged := fun hp => by cases hp
      nodup := List.nodup_nil
      at_archiver := ⟨fun _ hc => (by cases hc), fun _ _ hk => (by cases hk)⟩ }

instance (s : State) (a : Step) : Decidable (unfailing s a) :=
  match a with
  | .replace _ | .stopArchiver => isFalse id
  | .insertLine => inferInstanceAs (Decidable (NextInsertOk s))
  | .append _ | .beginPass _ | .commitOffset | .checkCursor | .endPass | .checkBatch
  | .loadBatch _ _ | .commitBatch | .checkRebuild | .markRebuild | .selectExport | .streamEvents _
  | .putObject | .recordExport | .purgeSession | .fetchObject | .withdrawAndClear | .replayLine
  | .endRestore => isTrue trivial

instance (parse : List UInt8 → Option Json) (line : TranscriptLine) :
    Decidable (Storable parse line) :=
  inferInstanceAs (Decidable (_ ∧ _))

instance (parse : List UInt8 → Option Json) (s : State) (a : Step) :
    Decidable (insertsKept parse s a) :=
  inferInstanceAs (Decidable (_ ∧ (_ → ∀ line ∈ s.nextInsert, _)))

/-- A pass over the line appended to `twoLines`. -/
def thirdLinePass : Pass := ⟨9, false, fun _ => false, fun _ => false, false⟩

/-- The line `{}` and its newline. -/
def thirdLine : List UInt8 := [0x7B, 0x7D, 0x0A]

theorem isLine_thirdLine : IsLine newline (twoLines ++ thirdLine) ⟨6, [0x7B, 0x7D]⟩ := by
  refine ⟨?_, ?_, rfl, by decide⟩
  · intro p hp
    obtain rfl : p = 5 := by simpa using hp
    rfl
  · show ∀ i < 2, (twoLines ++ thirdLine)[6 + i]? = ([0x7B, 0x7D] : List UInt8)[i]?
    decide

def restoreSteps : List Step :=
  [.fetchObject, .withdrawAndClear, .replayLine, .replayLine, .endRestore]

/-- The purge and the restore come before the pass that reads the third line. -/
def restoreThenPassSteps : List Step :=
  ingestSteps ++ exportSteps ++ [.purgeSession] ++ restoreSteps ++
    [.append thirdLine, .beginPass thirdLinePass, .insertLine, .commitOffset, .checkCursor,
      .endPass]

/-- The pass begins before the purge, and inserts and commits the third line after it. The
restore clears the events and replays an object that does not have the line. -/
def passAcrossPurgeSteps : List Step :=
  ingestSteps ++ exportSteps ++
    [.append thirdLine, .beginPass thirdLinePass, .purgeSession, .insertLine, .commitOffset,
      .checkCursor, .endPass] ++ restoreSteps

end Sulion.Session
