import Sulion.Session.System

set_option autoImplicit false

/-! # Exported history across an interrupted restore

`withdraw_and_clear` un-purges a session before its lines are replayed, one transaction
each. If the replay stops, the session counts as grown or shrunk since its export, and the
next cycle exports what is left of it over the object.

`exported_history_survives` is what holds: the lines of the object a restore began with stay
in the recorded object as long as no export reads the events while lines of the recorded
object are missing from them.
-/

namespace Sulion.Session

open Rust Ingest Transition

/-- An export streams the events only while they hold every line of the recorded object. -/
def exportsComplete (s : State) : Step → Prop
  | .streamEvents _ => ∀ e ∈ s.recordedLines, s.tail.events[e.1]? = some e.2
  | _ => True

/-- The lines `history` are in the recorded object, and in whatever is about to replace it. -/
structure Holds (history : ArchiveLines) (s : State) : Prop where
  recorded : history ⊆ s.recordedLines
  streamed : ∀ key lines, s.archiver = .streamed key lines → history ⊆ lines
  uploaded : ∀ key lines, s.archiver = .uploaded key lines →
    history ⊆ lines ∧ s.objects[key]? = some lines

variable {parse : List UInt8 → Option Json} {sha256 : ArchiveLines → String} {s s' : State}
  {history : ArchiveLines}

theorem Holds.of_same (h : Holds history s) (hs : SameArchive s s') : Holds history s' where
  recorded := hs.recordedLines ▸ h.recorded
  streamed key lines hk := h.streamed key lines (hs.archiver ▸ hk)
  uploaded key lines hk := hs.objects ▸ h.uploaded key lines (hs.archiver ▸ hk)

/-- A move of the archive loop that neither streams nor uploads. -/
theorem Holds.of_archiver (h : Holds history s) (harchive : s'.archive = s.archive)
    (hobjects : s'.objects = s.objects) (hs : ∀ key lines, s'.archiver ≠ .streamed key lines)
    (hu : ∀ key lines, s'.archiver ≠ .uploaded key lines) : Holds history s' where
  recorded := by simpa only [State.recordedLines, harchive, hobjects] using h.recorded
  streamed key lines hk := absurd hk (hs key lines)
  uploaded key lines hk := absurd hk (hu key lines)

theorem holds_streamEvents {key : String} (h : Holds history s)
    (hok : exportsComplete s (.streamEvents key)) (hstep : streamEvents s key = some s') :
    Holds history s' := by
  unfold streamEvents at hstep
  split at hstep
  · split at hstep
    · cases hstep
      exact h.of_archiver rfl rfl (by simp) (by simp)
    · cases hstep
      refine ⟨h.recorded, fun key' lines hk => ?_, by simp⟩
      cases hk
      intro e he
      exact Std.ExtTreeMap.mem_toList_iff_getElem?_eq_some.mpr (hok e (h.recorded he))
  · cases hstep

theorem holds_putObject (h : Holds history s) (hstep : putObject s = some s') :
    Holds history s' := by
  unfold putObject at hstep
  split at hstep
  · rename_i key lines hk
    have hlines := h.streamed key lines hk
    cases hstep
    refine ⟨fun e he => ?_, by simp, fun key' lines' hk' => ?_⟩
    · have hrec := h.recorded he
      simp only [State.recordedLines] at hrec ⊢
      split at hrec
      · cases hrec
      · rw [Table.lookup_insert]
        split
        · exact hlines he
        · exact hrec
    · cases hk'
      exact ⟨hlines, Table.lookup_insert_self _ _ _⟩
  · cases hstep

theorem holds_recordExport (h : Holds history s) (hstep : recordExport sha256 s = some s') :
    Holds history s' := by
  unfold recordExport at hstep
  split at hstep
  · rename_i key lines hk
    obtain ⟨hlines, hobject⟩ := h.uploaded key lines hk
    cases hstep
    refine ⟨fun e he => ?_, by simp, by simp⟩
    simp only [State.recordedLines, hobject, Option.getD_some]
    exact hlines he
  · cases hstep

theorem holds_preserved : Preserved (sessionStep parse sha256) exportsComplete (Holds history) := by
  intro s a s' h hok hstep
  by_cases ha : a.task = .archive
  · cases a with
    | streamEvents key => exact holds_streamEvents h hok hstep
    | putObject => exact holds_putObject h hstep
    | recordExport => exact holds_recordExport h hstep
    | selectExport =>
        simp only [sessionStep, selectExport] at hstep
        split at hstep
        · split at hstep <;> cases hstep
          exact h.of_archiver rfl rfl (by simp) (by simp)
        · cases hstep
    | purgeSession =>
        simp only [sessionStep, purgeSession] at hstep
        split at hstep
        · rename_i hidle
          split at hstep <;> cases hstep
          exact h.of_archiver rfl rfl (by simp [State.withEvents, hidle])
            (by simp [State.withEvents, hidle])
        · cases hstep
    | fetchObject =>
        simp only [sessionStep, fetchObject] at hstep
        split at hstep
        · split at hstep
          · split at hstep <;> cases hstep
            exact h.of_archiver rfl rfl (by simp) (by simp)
          · cases hstep
        · cases hstep
    | withdrawAndClear =>
        simp only [sessionStep, withdrawAndClear] at hstep
        split at hstep
        · split at hstep <;> cases hstep
          exact h.of_archiver rfl rfl (by simp) (by simp)
        · cases hstep
    | replayLine =>
        simp only [sessionStep, replayLine] at hstep
        split at hstep
        · cases hstep
          exact h.of_archiver rfl rfl (by simp) (by simp)
        · cases hstep
    | endRestore =>
        simp only [sessionStep, endRestore] at hstep
        split at hstep
        · cases hstep
          exact h.of_archiver rfl rfl (by simp) (by simp)
        · cases hstep
    | stopArchiver =>
        cases hstep
        exact h.of_archiver rfl rfl (by simp) (by simp)
    | _ => cases ha
  · exact h.of_same (sameArchive_of_task hstep ha)

theorem fetchObject_eq (h : fetchObject sha256 s = some s') :
    ∃ lines, s' = { s with archiver := .fetched lines } := by
  unfold fetchObject at h
  split at h
  · split at h
    · split at h
      · cases h
        exact ⟨_, rfl⟩
      · cases h
    · cases h
  · cases h

/-- **Exported history survives an interrupted restore.** Whatever the tasks do after a
restore began, and wherever it stops, every line of the object it began with is in the
events or in the recorded object, as long as every export finds the recorded object's lines
among the events. -/
theorem exported_history_survives (parse : List UInt8 → Option Json)
    (sha256 : ArchiveLines → String) (s₀ s₁ s : State) (hbegin : fetchObject sha256 s₀ = some s₁)
    (hrun : Run (sessionStep parse sha256) exportsComplete s₁ s) :
    ∀ e ∈ s₀.recordedLines, s.tail.events[e.1]? = some e.2 ∨ e ∈ s.recordedLines := by
  obtain ⟨lines, rfl⟩ := fetchObject_eq hbegin
  have h₁ : Holds s₀.recordedLines { s₀ with archiver := .fetched lines } :=
    ⟨fun _ => id, by simp, by simp⟩
  exact fun e he => .inr ((hrun.invariant holds_preserved h₁).recorded he)

/-! ## A restore that stops half way -/

/-- Two lines, `{}` each. -/
def twoLines : List UInt8 := [0x7B, 0x7D, 0x0A, 0x7B, 0x7D, 0x0A]

/-- A pass over `twoLines` in which nothing fails. -/
def twoLinesPass : Pass := ⟨6, false, fun _ => false, fun _ => false, false⟩

/-- Stands for the hash on the objects of the sample runs, which differ in length. -/
def sampleSha256 (lines : ArchiveLines) : String := String.ofList (lines.map fun _ => 'a')

/-- The session is ingested and projected. -/
def ingestSteps : List Step :=
  [.beginPass twoLinesPass, .insertLine, .insertLine, .commitOffset, .checkCursor, .endPass,
    .checkBatch, .loadBatch 500 {0}, .commitBatch]

def exportSteps : List Step :=
  [.selectExport, .streamEvents "2026/01", .putObject, .recordExport]

/-- The state after the listed steps. -/
def sampleState (s : State) (steps : List Step) : State :=
  (runList (sessionStep parseSample sampleSha256) s steps).getD s

/-- `twoLines` ingested, exported and purged. -/
def purgedState : State :=
  sampleState (.new twoLines) (ingestSteps ++ exportSteps ++ [.purgeSession])

/-- The restore of `purgedState` has read the object. -/
def fetchedState : State := sampleState purgedState [.fetchObject]

/-- The restore runs to its end; the next export finds nothing to do. -/
theorem exported_history_survives_restore :
    fetchObject sampleSha256 purgedState = some fetchedState ∧
      ∀ e ∈ purgedState.recordedLines,
        (sampleState fetchedState
          [.withdrawAndClear, .replayLine, .replayLine, .endRestore]).tail.events[e.1]?
            = some e.2 ∨
          e ∈ (sampleState fetchedState
            [.withdrawAndClear, .replayLine, .replayLine, .endRestore]).recordedLines :=
  ⟨rfl, exported_history_survives parseSample sampleSha256 purgedState fetchedState _ rfl
    (((((Run.refl fetchedState).snoc (a := .withdrawAndClear) trivial rfl).snoc
      (a := .replayLine) trivial rfl).snoc (a := .replayLine) trivial rfl).snoc
      (a := .endRestore) trivial rfl)⟩

/-- The replay stops after one of two lines, and the next cycle exports that line. -/
def interruptedSteps : List Step :=
  [.withdrawAndClear, .replayLine, .stopArchiver] ++ exportSteps

theorem interrupted_restore_loses_history :
    fetchObject sampleSha256 purgedState = some fetchedState ∧
      ∃ s, Run (sessionStep parseSample sampleSha256) anyStep fetchedState s ∧
        ¬ ∀ e ∈ purgedState.recordedLines,
          s.tail.events[e.1]? = some e.2 ∨ e ∈ s.recordedLines := by
  refine ⟨rfl, sampleState fetchedState interruptedSteps, .of_runList interruptedSteps rfl,
    fun h => ?_⟩
  have hbefore : purgedState.recordedLines = [(0, .obj []), (3, .obj [])] := rfl
  have hevents : (sampleState fetchedState interruptedSteps).tail.events[3]? = none := rfl
  have hafter : (sampleState fetchedState interruptedSteps).recordedLines = [(0, .obj [])] := rfl
  rcases h (3, .obj []) (by simp [hbefore]) with hrow | hline
  · rw [hevents] at hrow
    cases hrow
  · simp [hafter] at hline

end Sulion.Session
