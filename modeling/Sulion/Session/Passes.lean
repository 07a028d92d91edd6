import Sulion.Session.System

set_option autoImplicit false

/-! # What an interleaved pass commits

The pass of `Ingest/ProcessFile.lean` taken apart into its transactions, with other tasks in
between. `PassSound parse kept s` carries the argument of that file through the interleaving:
the accepted lines below the committed offset are kept, and so are those a running pass has
walked. What `kept` means is left open; it only has to survive the other tasks
(`PassSound.mono`) and to include the rows the pass inserts (`passSound_step`).
-/

namespace Sulion.Session

open Rust Lines Ingest

/-- The pass has walked the lines `done` and has `todo` before it. -/
structure WalkSound (parse : List UInt8 → Option Json) (kept : Nat → Prop) (t : Tail)
    (r : RunningPass) (done : List TranscriptLine) : Prop where
  consecutive : Consecutive newline t.file t.committedOffset (done ++ r.todo)
  nextCommitted : r.walk.nextCommitted = stopOf t.committedOffset done
  admitted : r.walk.admitted = done.length
  kept_done : ∀ line ∈ done, Storable parse line → kept line.start
  untouched : done = [] → r.todo = bufferLines r.pass t
  short : ∀ line ∈ r.todo, line.cells.length + 1 ≤ maxReadBytes
  fileLen_le : r.pass.fileLen ≤ t.file.length

/-- The committed lines are kept, and the walked lines of a running pass. -/
structure PassSound (parse : List UInt8 → Option Json) (kept : Nat → Prop) (s : State) : Prop where
  tail : s.tail.Sound parse kept
  walk : ∀ r, s.running = some r → r.stage = .inserting →
    ∃ done, WalkSound parse kept s.tail r done

variable {parse : List UInt8 → Option Json} {sha256 : ArchiveLines → String}
  {kept kept' : Nat → Prop} {s s' : State} {t t' : Tail} {r : RunningPass}
  {done : List TranscriptLine}

theorem passSound_new (file : List UInt8) : PassSound parse kept (.new file) :=
  ⟨.new file, by simp [State.new]⟩

theorem WalkSound.mono (h : WalkSound parse kept t r done) (hfile : t'.file = t.file)
    (hcommitted : t'.lastCommitted = t.lastCommitted) (hkeep : ∀ k, kept k → kept' k) :
    WalkSound parse kept' t' r done := by
  have hoff : t'.committedOffset = t.committedOffset := by simp [Tail.committedOffset, hcommitted]
  have hbuf : bufferLines r.pass t' = bufferLines r.pass t := by
    simp only [bufferLines, readBuffer, hfile, hoff]
  refine ⟨?_, ?_, h.admitted, fun line hl hs => hkeep _ (h.kept_done line hl hs), ?_, h.short, ?_⟩
  · rw [hfile, hoff]
    exact h.consecutive
  · rw [hoff]
    exact h.nextCommitted
  · rw [hbuf]
    exact h.untouched
  · rw [hfile]
    exact h.fileLen_le

/-- Other tasks leave file, offset and pass alone. -/
theorem PassSound.mono (h : PassSound parse kept s) (hfile : s'.tail.file = s.tail.file)
    (hcommitted : s'.tail.lastCommitted = s.tail.lastCommitted) (hrunning : s'.running = s.running)
    (hkeep : ∀ k, kept k → kept' k) : PassSound parse kept' s' where
  tail := h.tail.mono hfile hcommitted hkeep
  walk r hr hstage := by
    obtain ⟨done, hw⟩ := h.walk r (hrunning ▸ hr) hstage
    exact ⟨done, hw.mono hfile hcommitted hkeep⟩

theorem bufferLines_append {p : Pass} {bytes : List UInt8} (hlen : p.fileLen ≤ t.file.length) :
    bufferLines p { t with file := t.file ++ bytes } = bufferLines p t := by
  have hoff : Tail.committedOffset { t with file := t.file ++ bytes } = t.committedOffset := rfl
  simp only [bufferLines, readBuffer, hoff]
  congr 1
  by_cases hc : t.committedOffset ≤ t.file.length
  · rw [List.drop_append_of_le_length hc, List.take_append_of_le_length]
    rw [List.length_drop]
    omega
  · have : p.fileLen - t.committedOffset = 0 := by omega
    simp [this]

theorem PassSound.append (h : PassSound parse kept s) (bytes : List UInt8) :
    PassSound parse kept { s with tail := { s.tail with file := s.tail.file ++ bytes } } where
  tail := h.tail.append bytes
  walk r hr hstage := by
    obtain ⟨done, hw⟩ := h.walk r hr hstage
    refine ⟨done, hw.consecutive.append_file, hw.nextCommitted, hw.admitted, hw.kept_done, ?_,
      hw.short, ?_⟩
    · rw [bufferLines_append hw.fileLen_le]
      exact hw.untouched
    · have := hw.fileLen_le
      show r.pass.fileLen ≤ (s.tail.file ++ bytes).length
      rw [List.length_append]
      omega

theorem passSound_beginPass {p : Pass} (h : PassSound parse kept s)
    (hstep : beginPass s p = some s') : PassSound parse kept s' := by
  unfold beginPass at hstep
  split at hstep
  · cases hstep
  rename_i hguard
  simp only [not_or, not_lt] at hguard
  split at hstep
  · cases hstep
    exact h
  split at hstep
  · cases hstep
    refine ⟨sound_setOffset (fun _ => h.tail) fun _ => .reset, fun r hr => ?_⟩
    simp only at hr
    simp [hr] at hguard
  · cases hstep
    refine ⟨h.tail, fun r hr _ => ⟨[], ?_⟩⟩
    cases hr
    refine ⟨consecutive_bufferLines h.tail.toAtBoundary p, rfl, rfl, by simp, fun _ => rfl,
      fun line hline => ?_, hguard.2.1⟩
    have := length_of_mem_splitFrom hline
    simp only [readBuffer, List.length_nil, List.length_take] at this
    omega

/-- A line below the point the pass has reached is kept. -/
theorem WalkSound.kept_below (ht : t.Sound parse kept) (h : WalkSound parse kept t r done)
    {line : TranscriptLine} (hline : Accepted parse t.file line)
    (hstop : line.stop ≤ r.walk.nextCommitted) : kept line.start := by
  by_cases hold : line.stop ≤ t.committedOffset
  · exact ht.stored line hline hold
  · have hmem := h.consecutive.of_append.mem_of_isLine hline.isLine
      (ht.le_start hline.isLine hold) (h.nextCommitted ▸ hstop)
    exact h.kept_done line hmem hline.storable

/-- The line the pass is about to insert is a line of the file at the point it has reached. -/
theorem WalkSound.next_line {line : TranscriptLine} {todo : List TranscriptLine}
    (h : WalkSound parse kept t r done) (htodo : r.todo = line :: todo) :
    line.start = r.walk.nextCommitted ∧ IsLine newline t.file line := by
  have hcons := h.consecutive
  rw [htodo] at hcons
  obtain ⟨hstart, hline, _⟩ := hcons.of_append_right
  exact ⟨h.nextCommitted ▸ hstart, hline⟩

/-- The insert of the pass's next line cannot fail. -/
def NextInsertOk (s : State) : Prop :=
  ∀ p line todo w behind, s.running = some ⟨p, line :: todo, w, .inserting, behind⟩ →
    p.insertFails line.start = false

instance (s : State) : Decidable (NextInsertOk s) :=
  match h : s.running with
  | some ⟨p, line :: todo, w, .inserting, behind⟩ =>
      if hfails : p.insertFails line.start = false then
        isTrue fun p' line' _ _ _ h' => by
          rw [h] at h'
          cases h'
          exact hfails
      else isFalse fun hok => hfails (hok p line todo w behind h)
  | some ⟨_, [], _, _, _⟩ => isTrue fun _ _ _ _ _ h' => by rw [h] at h'; cases h'
  | some ⟨_, _ :: _, _, .checking, _⟩ => isTrue fun _ _ _ _ _ h' => by rw [h] at h'; cases h'
  | some ⟨_, _ :: _, _, .decided _, _⟩ => isTrue fun _ _ _ _ _ h' => by rw [h] at h'; cases h'
  | none => isTrue fun _ _ _ _ _ h' => by rw [h] at h'; cases h'

theorem passSound_insertLine (h : PassSound parse kept s) (hok : NextInsertOk s)
    (hkeep : ∀ k, kept k → kept' k) (hrows : ∀ k, HasRow s'.tail.events k → kept' k)
    (hstep : insertLine parse s = some s') : PassSound parse kept' s' := by
  unfold insertLine at hstep
  split at hstep
  · rename_i p line todo w behind hr
    obtain ⟨done, hw⟩ := h.walk _ hr rfl
    split at hstep
    · -- The admission closes: the lines that wait are left for the next pass.
      rename_i hclosed
      cases hstep
      refine ⟨h.tail.mono rfl rfl hkeep, fun r' hr' _ => ⟨done, ?_⟩⟩
      cases hr'
      refine ⟨?_, hw.nextCommitted, hw.admitted, fun l hl hs => hkeep _ (hw.kept_done l hl hs), ?_,
        by simp, hw.fileLen_le⟩
      · rw [List.append_nil]
        exact hw.consecutive.of_append
      · intro hdone
        have hzero : w.admitted = 0 := by
          have := hw.admitted
          rw [hdone] at this
          exact this
        simp [admissionClosed, hzero, admitLinesPerTick] at hclosed
    · cases hstep
      have hfails := hok p line todo w behind hr
      refine ⟨h.tail.mono rfl rfl hkeep, fun r' hr' _ => ⟨done ++ [line], ?_⟩⟩
      cases hr'
      refine ⟨?_, ?_, ?_, ?_, by simp, fun l hl => hw.short l (List.mem_cons_of_mem _ hl),
        hw.fileLen_le⟩
      · rw [List.append_assoc]
        exact hw.consecutive
      · rw [stopOf_append]
        rfl
      · show w.admitted + 1 = (done ++ [line]).length
        rw [List.length_append, List.length_singleton]
        exact congrArg (· + 1) hw.admitted
      · intro l hl hs
        rcases List.mem_append.mp hl with hl | hl
        · exact hkeep _ (hw.kept_done l hl hs)
        · rw [List.mem_singleton] at hl
          subst hl
          exact hrows _ (insertEvent_stores hs (by simp [hfails]))
  · cases hstep

theorem setOffset_file {p : Pass} {offset : Nat} {result : FileResult} :
    (setOffset p t offset result).1.file = t.file := by
  unfold setOffset
  split <;> rfl

theorem passSound_commitOffset (h : PassSound parse kept s) (hstep : commitOffset s = some s') :
    PassSound parse kept s' := by
  unfold commitOffset at hstep
  split at hstep
  · rename_i p w behind hr
    obtain ⟨done, hw⟩ := h.walk _ hr rfl
    have hempty : done = [] → newline ∉ readBuffer p s.tail := by
      intro hdone
      rw [← bufferLines_eq_nil_iff]
      exact (hw.untouched hdone).symm
    have hcons := hw.consecutive
    rw [List.append_nil] at hcons
    have htail := sound_finishWalk h.tail hcons hw.nextCommitted hempty fun _ => hw.kept_done
    split at hstep
    · rename_i tail hfinish
      rw [hfinish] at htail
      cases hstep
      exact ⟨htail, by simp⟩
    · rename_i tail result hfinish
      rw [hfinish] at htail
      cases hstep
      exact ⟨htail, by simp⟩
  · cases hstep

theorem passSound_checkCursor (h : PassSound parse kept s) (hstep : checkCursor s = some s') :
    PassSound parse kept s' := by
  unfold checkCursor at hstep
  split at hstep
  · cases hstep
    exact ⟨h.tail, by simp⟩
  · cases hstep

theorem passSound_endPass (h : PassSound parse kept s) (hstep : endPass s = some s') :
    PassSound parse kept s' := by
  unfold endPass at hstep
  split at hstep
  · split at hstep
    · obtain ⟨_, rfl⟩ := requestRebuild_eq hstep
      exact ⟨h.tail, by simp⟩
    · cases hstep
      exact ⟨h.tail, by simp⟩
  · cases hstep

/-- **One step of the pass or of the writing agent.** What is kept before stays kept, and the
rows the pass inserts are kept. -/
theorem passSound_step {a : Step} (h : PassSound parse kept s)
    (ha : a.task = .ingest ∨ ∃ bytes, a = .append bytes) (hok : a = .insertLine → NextInsertOk s)
    (hkeep : ∀ k, kept k → kept' k) (hrows : ∀ k, HasRow s'.tail.events k → kept' k)
    (hstep : sessionStep parse sha256 s a = some s') : PassSound parse kept' s' := by
  have hmono : ∀ s, PassSound parse kept s → PassSound parse kept' s := fun s h =>
    h.mono rfl rfl rfl hkeep
  rcases ha with ha | ⟨bytes, rfl⟩
  · cases a with
    | beginPass p => exact hmono _ (passSound_beginPass h hstep)
    | insertLine => exact passSound_insertLine h (hok rfl) hkeep hrows hstep
    | commitOffset => exact hmono _ (passSound_commitOffset h hstep)
    | checkCursor => exact hmono _ (passSound_checkCursor h hstep)
    | endPass => exact hmono _ (passSound_endPass h hstep)
    | _ => cases ha
  · cases hstep
    exact hmono _ (h.append bytes)

end Sulion.Session
