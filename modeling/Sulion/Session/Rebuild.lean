import Sulion.Session.ExportedHistory
import Sulion.Session.Passes

set_option autoImplicit false

/-! # Rebuilds asked for by the ingester

`rebuild_if_inserted_behind` compares the first offset a pass inserted at with the cursor it
reads when the pass is over, while projection may have moved the cursor since the insert.
So a batch that applies the pass's own lines before that read makes the pass ask for a
rebuild nobody needs.

`rebuild_requested_iff_inserted_behind` is what holds as long as no batch carries the cursor
across the first inserted offset between the insert and the read: the session is marked
exactly when a line was inserted at or below the cursor of that moment, and a session whose
transcript only grows is not marked at all. The first half follows the pass (`Sided`), the
second the stored rows (`Growing`): without gaps below them, a row the pass adds lies above
every other, and so above the cursor.
-/

namespace Sulion.Session

open Rust Lines Ingest Transition

/-- No batch carries the cursor across the first offset of a pass that has yet to read it. -/
def batchKeepsSide (s : State) : Step → Prop
  | .commitBatch =>
      ∀ b ∈ s.batch, ∀ r ∈ s.running, r.stage = .inserting ∨ r.stage = .checking →
        ∀ o ∈ r.walk.result.firstInsertedOffset,
          s.behindCursor o = decide ((o : Int) ≤ b.projectedThrough)
  | _ => True

/-- What a step of `endPass` does to the state row when it has to mark the session, and when
it must not. -/
def MarksIff (behind : Bool) (s s' : State) : Prop :=
  if behind then ∃ c, s'.cursor = some c ∧ c.projectionVersion = 0 else s'.cursor = s.cursor

/-! ## The verdict of a pass -/

/-- The verdict on a pass follows from the side its first inserted offset is on. -/
structure Sided (s : State) (r : RunningPass) : Prop where
  increasing : r.todo.Pairwise fun a b => a.start < b.start
  after_first : ∀ o ∈ r.walk.result.firstInsertedOffset, ∀ line ∈ r.todo, o < line.start
  verdict :
    match r.stage with
    | .inserting | .checking =>
        r.insertedBehind = r.walk.result.firstInsertedOffset.any s.behindCursor
    | .decided behind => behind = r.insertedBehind ∧ (behind = true → s.cursor.isSome)

variable {parse : List UInt8 → Option Json} {sha256 : ArchiveLines → String} {s s' : State}
  {r : RunningPass}

/-- Another task's step leaves the verdict alone if it leaves the cursor on its side. -/
theorem Sided.of_cursor (h : Sided s r) (hsome : s.cursor.isSome → s'.cursor.isSome)
    (hside : r.stage = .inserting ∨ r.stage = .checking →
      ∀ o ∈ r.walk.result.firstInsertedOffset, s'.behindCursor o = s.behindCursor o) :
    Sided s' r := by
  refine ⟨h.increasing, h.after_first, ?_⟩
  have hv := h.verdict
  split at hv
  · rename_i hstage
    rw [hv]
    cases ho : r.walk.result.firstInsertedOffset with
    | none => rfl
    | some o => exact (hside (.inl hstage) o ho).symm
  · rename_i hstage
    rw [hv]
    cases ho : r.walk.result.firstInsertedOffset with
    | none => rfl
    | some o => exact (hside (.inr hstage) o ho).symm
  · exact ⟨hv.1, fun hb => hsome (hv.2 hb)⟩

theorem behindCursor_of_eq (h : s'.cursor = s.cursor) (o : Nat) :
    s'.behindCursor o = s.behindCursor o := by
  rw [State.behindCursor, State.behindCursor, h]

theorem behindCursor_of_map
    (h : s'.cursor = s.cursor.map fun c => { c with projectionVersion := 0 })
    (o : Nat) : s'.behindCursor o = s.behindCursor o := by
  rw [State.behindCursor, State.behindCursor, h]
  cases s.cursor <;> rfl

/-- Whatever lies at or below the cursor takes what lies below it along. -/
theorem behindCursor_mono {o k : Nat} (hle : o ≤ k) (hk : s.behindCursor k = true) :
    s.behindCursor o = true := by
  obtain ⟨c, hc, hthrough⟩ := (Option.any_eq_true _ _).mp hk
  refine (Option.any_eq_true _ _).mpr ⟨c, hc, decide_eq_true ?_⟩
  have := of_decide_eq_true hthrough
  omega

/-- The cursor and the row of the state only matter up to the version. -/
theorem cursor_of_step {a : Step} (hstep : sessionStep parse sha256 s a = some s')
    (ha : a ≠ .commitBatch) :
    s'.cursor = s.cursor ∨ s'.cursor = s.cursor.map fun c => { c with projectionVersion := 0 } := by
  by_cases hw : a.writesTimeline = false
  · exact .inl (sameTimeline_of_not_writes hstep hw).cursor
  cases a with
  | endPass =>
      simp only [sessionStep, endPass] at hstep
      split at hstep
      · split at hstep
        · obtain ⟨_, rfl⟩ := requestRebuild_eq hstep
          exact .inr rfl
        · cases hstep
          exact .inl rfl
      · cases hstep
  | loadBatch budget turns =>
      simp only [sessionStep, loadBatch] at hstep
      split at hstep <;> cases hstep
      exact .inl rfl
  | commitBatch => exact absurd rfl ha
  | markRebuild =>
      simp only [sessionStep, markRebuild] at hstep
      split at hstep
      · cases hstep
      · obtain ⟨_, rfl⟩ := requestRebuild_eq hstep
        exact .inr rfl
  | purgeSession =>
      simp only [sessionStep, purgeSession] at hstep
      split at hstep
      · split at hstep <;> cases hstep
        exact .inl rfl
      · cases hstep
  | withdrawAndClear =>
      simp only [sessionStep, withdrawAndClear] at hstep
      split at hstep
      · split at hstep <;> cases hstep
        exact .inr rfl
      · cases hstep
  | _ => exact absurd rfl hw

theorem finishWalk_firstInsertedOffset {p : Pass} {t t' : Tail} {w : Walk} {result : FileResult}
    (h : finishWalk p t w = (t', some result)) :
    result.firstInsertedOffset = w.result.firstInsertedOffset := by
  unfold finishWalk skipOversizedLine setOffset at h
  repeat' split at h
  all_goals cases h <;> rfl

theorem record_firstInsertedOffset {w : Walk} {line : TranscriptLine} {result : InsertResult} :
    (w.record line result).result.firstInsertedOffset =
      if result = .ok true then w.result.firstInsertedOffset.or (some line.start)
      else w.result.firstInsertedOffset := by
  unfold Walk.record
  split <;> simp_all

theorem sided_beginPass {p : Pass} (h : ∀ r, s.running = some r → Sided s r)
    (hstep : beginPass s p = some s') : ∀ r, s'.running = some r → Sided s' r := by
  unfold beginPass at hstep
  split at hstep
  · cases hstep
  rename_i hidle
  split at hstep
  · cases hstep
    exact h
  split at hstep <;> cases hstep
  · intro r hr
    simp only at hr
    simp [hr] at hidle
  · intro r hr
    cases hr
    exact ⟨splitFrom_increasing.1, nofun, rfl⟩

/-- A line inserted behind the cursor has the first inserted offset behind it too. -/
theorem Sided.record {p : Pass} {line : TranscriptLine} {todo : List TranscriptLine} {w : Walk}
    {behind : Bool} {result : InsertResult}
    (h : Sided s ⟨p, line :: todo, w, .inserting, behind⟩) (hcursor : s'.cursor = s.cursor) :
    Sided s' ⟨p, todo, w.record line result, .inserting,
      behind || (result == .ok true && s.behindCursor line.start)⟩ := by
  obtain ⟨hincreasing, hafter, hverdict⟩ := h
  have hside : s'.behindCursor = s.behindCursor := funext (behindCursor_of_eq hcursor)
  rw [List.pairwise_cons] at hincreasing
  simp only [List.forall_mem_cons] at hafter hverdict
  by_cases hnew : result = .ok true
  · subst hnew
    cases hfirst : w.result.firstInsertedOffset with
    | none =>
        rw [hfirst] at hverdict
        refine ⟨hincreasing.2, ?_, ?_⟩
        · simpa [record_firstInsertedOffset, hfirst] using hincreasing.1
        · simp [record_firstInsertedOffset, hfirst, hverdict, hside]
    | some o =>
        rw [hfirst, Option.any_some] at hverdict
        refine ⟨hincreasing.2, ?_, ?_⟩
        · simpa [record_firstInsertedOffset, hfirst] using (hafter o hfirst).2
        · have hmono : s.behindCursor line.start = true → s.behindCursor o = true :=
            behindCursor_mono (hafter o hfirst).1.le
          simpa [record_firstInsertedOffset, hfirst, hverdict, hside] using hmono
  · refine ⟨hincreasing.2, ?_, ?_⟩
    · simpa [record_firstInsertedOffset, hnew] using fun o ho => (hafter o ho).2
    · simp [record_firstInsertedOffset, hnew, hverdict, hside]

theorem sided_insertLine (h : ∀ r, s.running = some r → Sided s r)
    (hstep : insertLine parse s = some s') : ∀ r, s'.running = some r → Sided s' r := by
  unfold insertLine at hstep
  split at hstep
  · rename_i p line todo w behind hr
    have hsided := h _ hr
    split at hstep
    · cases hstep
      intro r' hr'
      obtain rfl := Option.some.inj hr'
      exact ⟨List.Pairwise.nil, by simp, hsided.verdict⟩
    · cases hstep
      intro r' hr'
      obtain rfl := Option.some.inj hr'
      exact hsided.record rfl
  · cases hstep

theorem sided_commitOffset (h : ∀ r, s.running = some r → Sided s r)
    (hstep : commitOffset s = some s') : ∀ r, s'.running = some r → Sided s' r := by
  unfold commitOffset at hstep
  split at hstep
  · rename_i p w behind hr
    obtain ⟨_, _, hverdict⟩ := h _ hr
    split at hstep
    · cases hstep
      intro r hr
      cases hr
    · rename_i tail result hfinish
      cases hstep
      intro r hr
      cases hr
      refine ⟨List.Pairwise.nil, by simp, ?_⟩
      simp only at hverdict ⊢
      rw [hverdict, finishWalk_firstInsertedOffset hfinish]
      rfl
  · cases hstep

theorem sided_checkCursor (h : ∀ r, s.running = some r → Sided s r)
    (hstep : checkCursor s = some s') : ∀ r, s'.running = some r → Sided s' r := by
  unfold checkCursor at hstep
  split at hstep
  · rename_i p todo w behind hr
    obtain ⟨hincreasing, hafter, hverdict⟩ := h _ hr
    cases hstep
    intro r hr
    cases hr
    refine ⟨hincreasing, hafter, hverdict.symm, fun hb => ?_⟩
    obtain ⟨o, _, ho⟩ := (Option.any_eq_true _ _).mp hb
    obtain ⟨c, hc, _⟩ := (Option.any_eq_true _ _).mp ho
    exact Option.isSome_iff_exists.mpr ⟨c, hc⟩
  · cases hstep

theorem running_endPass (hstep : endPass s = some s') : s'.running = none := by
  unfold endPass at hstep
  split at hstep
  · split at hstep
    · obtain ⟨_, rfl⟩ := requestRebuild_eq hstep
      rfl
    · cases hstep
      rfl
  · cases hstep

/-- The pass marks the session as its verdict says. -/
theorem marksIff_endPass (hr : s.running = some r) (h : Sided s r) (hstep : endPass s = some s') :
    MarksIff r.insertedBehind s s' := by
  unfold endPass at hstep
  split at hstep
  · rename_i p todo w decision behind hr'
    obtain rfl := Option.some.inj (hr.symm.trans hr')
    obtain ⟨hdecision, hsome⟩ := h.verdict
    simp only at hdecision
    subst hdecision
    split at hstep
    · rename_i hbehind
      obtain ⟨_, rfl⟩ := requestRebuild_eq hstep
      obtain ⟨c, hc⟩ := Option.isSome_iff_exists.mp (hsome hbehind)
      rw [MarksIff, if_pos hbehind]
      exact ⟨{ c with projectionVersion := 0 }, by simp [hc], rfl⟩
    · rename_i hbehind
      cases hstep
      rw [MarksIff, if_neg hbehind]
  · cases hstep

theorem running_of_task {a : Step} (hstep : sessionStep parse sha256 s a = some s')
    (ha : a.task ≠ .ingest) : s'.running = s.running := by
  cases htask : a.task with
  | ingest => exact absurd htask ha
  | projection => exact (samePass_of_task hstep (.inl htask)).running
  | archive => exact (samePass_of_task hstep (.inr htask)).running
  | transcript =>
      cases a with
      | append bytes => cases hstep; rfl
      | replace file => cases hstep; rfl
      | _ => cases htask

theorem sided_preserved :
    Preserved (sessionStep parse sha256) batchKeepsSide
      (fun s => ∀ r, s.running = some r → Sided s r) := by
  intro s a s' h hok hstep
  by_cases ha : a.task = .ingest
  · cases a with
    | beginPass p => exact sided_beginPass h hstep
    | insertLine => exact sided_insertLine h hstep
    | commitOffset => exact sided_commitOffset h hstep
    | checkCursor => exact sided_checkCursor h hstep
    | endPass =>
        intro r hr
        rw [running_endPass hstep] at hr
        cases hr
    | _ => cases ha
  · intro r hr
    rw [running_of_task hstep ha] at hr
    by_cases hcommit : a = .commitBatch
    · subst hcommit
      simp only [sessionStep, commitBatch] at hstep
      split at hstep
      · cases hstep
      · rename_i b hb
        cases hstep
        exact (h r hr).of_cursor (fun _ => rfl) fun hstage o ho => (hok b hb r hr hstage o ho).symm
    · rcases cursor_of_step hstep hcommit with hcursor | hcursor
      · exact (h r hr).of_cursor (fun hc => by rwa [hcursor]) fun _ o _ =>
          behindCursor_of_eq hcursor o
      · exact (h r hr).of_cursor (fun hc => by simpa [hcursor] using hc)
          fun _ o _ => behindCursor_of_map hcursor o

/-! ## A transcript that only grows -/

/-- The transcript only grows, no insert fails, and the archive loop leaves the session
alone. -/
def grows (s : State) : Step → Prop
  | .replace _ => False
  | .insertLine => NextInsertOk s
  | a => a.task ≠ .archive

/-- Before all events, or at a stored event. -/
def State.AtRow (s : State) (through : Int) : Prop :=
  through = -1 ∨ ∃ k : Nat, HasRow s.tail.events k ∧ through = k

/-- The stored rows are lines of the transcript without gaps below them, cursors stand at
stored rows, and no line was inserted behind the cursor. -/
structure Growing (parse : List UInt8 → Option Json) (s : State) : Prop where
  pass : PassSound parse (HasRow s.tail.events) s
  row_line : ∀ k, HasRow s.tail.events k → ∃ cells, Accepted parse s.tail.file ⟨k, cells⟩
  no_gap : ∀ line, Accepted parse s.tail.file line →
    ∀ k, HasRow s.tail.events k → line.start < k → HasRow s.tail.events line.start
  cursor : ∀ c, s.cursor = some c → s.AtRow c.projectedThrough
  batch : ∀ b, s.batch = some b → s.AtRow b.projectedThrough
  above : ∀ r, s.running = some r → r.insertedBehind = false

/-- A line without a row lies above the cursor if no row above it has one. -/
theorem Growing.behindCursor_false (h : Growing parse s) {line : TranscriptLine}
    (hline : Accepted parse s.tail.file line) (hrow : ¬ HasRow s.tail.events line.start) :
    s.behindCursor line.start = false := by
  refine Bool.eq_false_iff.mpr fun hbehind => ?_
  obtain ⟨c, hc, hthrough⟩ := (Option.any_eq_true _ _).mp hbehind
  have hle : (line.start : Int) ≤ c.projectedThrough := of_decide_eq_true hthrough
  rcases h.cursor c hc with hnone | ⟨k, hk, hat⟩
  · omega
  · rcases Nat.lt_or_ge line.start k with hlt | hge
    · exact hrow (h.no_gap line hline k hk hlt)
    · have : line.start = k := by omega
      exact hrow (this ▸ hk)

/-- A line of the grown file that starts below a stored line was a line before. -/
theorem accepted_of_append {file bytes : List UInt8} {line stored : TranscriptLine}
    (hline : Accepted parse (file ++ bytes) line) (hstored : Accepted parse file stored)
    (hlt : line.start < stored.start) : Accepted parse file line := by
  have hgrown : IsLine newline (file ++ bytes) stored :=
    (isLine_append_iff hstored.isLine.stop_le).mpr hstored.isLine
  have hstop : line.stop ≤ stored.start :=
    (hline.isLine.eq_or_behind hgrown hlt.le).resolve_left fun heq => by simp [heq] at hlt
  have hend : line.stop ≤ file.length := by
    have := hstored.isLine.stop_le
    rw [Line.stop] at this
    omega
  exact ⟨(isLine_append_iff hend).mp hline.isLine, hline.storable, hline.short⟩

theorem Growing.append (h : Growing parse s) (bytes : List UInt8) :
    Growing parse { s with tail := { s.tail with file := s.tail.file ++ bytes } } where
  pass := h.pass.append bytes
  row_line k hk := by
    obtain ⟨cells, hline, hstorable, hshort⟩ := h.row_line k hk
    exact ⟨cells, (isLine_append_iff hline.stop_le).mpr hline, hstorable, hshort⟩
  no_gap line hline k hk hlt := by
    obtain ⟨cells, hstored⟩ := h.row_line k hk
    exact h.no_gap line (accepted_of_append hline hstored hlt) k hk hlt
  cursor := h.cursor
  batch := h.batch
  above := h.above

/-- The pass's next line, once it is stored, lies above all others. -/
theorem growing_insertLine (h : Growing parse s) (hok : NextInsertOk s)
    (hstep : insertLine parse s = some s') : Growing parse s' := by
  have hrows : ∀ k, HasRow s.tail.events k → HasRow s'.tail.events k := fun k hk =>
    hasRow_of_task (show sessionStep parse (fun _ => "") s .insertLine = some s' from hstep)
      nofun hk
  have hpass : PassSound parse (HasRow s'.tail.events) s' :=
    passSound_insertLine h.pass hok hrows (fun _ => id) hstep
  unfold insertLine at hstep
  split at hstep
  · rename_i p line todo w behind hr
    have hbehind : behind = false := h.above _ hr
    split at hstep
    · cases hstep
      refine ⟨hpass, h.row_line, h.no_gap, h.cursor, h.batch, fun r hr' => ?_⟩
      obtain rfl := Option.some.inj hr'
      exact hbehind
    · cases hstep
      obtain ⟨done, hw⟩ := h.pass.walk _ hr rfl
      obtain ⟨hstart, hline⟩ := hw.next_line rfl
      have haccepted : Storable parse line → Accepted parse s.tail.file line := fun hs =>
        ⟨hline, hs, hw.short line (.head _)⟩
      have hnew :
          ∀ k, HasRow (insertEvent parse (p.insertFails line.start) s.tail.events line).1 k →
          HasRow s.tail.events k ∨ Accepted parse s.tail.file line ∧ line.start = k := fun k hk =>
        (hasRow_insertEvent hk).imp_right fun hk => ⟨haccepted hk.1, hk.2⟩
      refine ⟨hpass, ?_, ?_, ?_, ?_, ?_⟩
      · intro k hk
        rcases hnew k hk with hold | ⟨hacc, rfl⟩
        · exact h.row_line k hold
        · exact ⟨line.cells, hacc⟩
      · intro l hl k hk hlt
        refine hrows _ ?_
        rcases hnew k hk with hold | ⟨hacc, rfl⟩
        · exact h.no_gap l hl k hold hlt
        · have hstop : l.stop ≤ line.start :=
            (hl.isLine.eq_or_behind hline hlt.le).resolve_left fun heq => by simp [heq] at hlt
          exact hw.kept_below h.pass.tail hl (hstart ▸ hstop)
      · exact fun c hc => (h.cursor c hc).imp_right fun ⟨k, hk, hat⟩ => ⟨k, hrows k hk, hat⟩
      · exact fun b hb => (h.batch b hb).imp_right fun ⟨k, hk, hat⟩ => ⟨k, hrows k hk, hat⟩
      · intro r hr'
        obtain rfl := Option.some.inj hr'
        show (behind || _) = false
        rw [hbehind, Bool.false_or, Bool.and_eq_false_imp]
        intro hinserted
        obtain ⟨hs, hrow⟩ := insertEvent_inserted (beq_iff_eq.mp hinserted)
        exact h.behindCursor_false (haccepted hs) hrow
  · cases hstep

/-- A step that leaves file and rows alone. -/
theorem Growing.of_same (h : Growing parse s) (hpass : PassSound parse (HasRow s'.tail.events) s')
    (hfile : s'.tail.file = s.tail.file) (hevents : s'.tail.events = s.tail.events)
    (hcursor : ∀ c, s'.cursor = some c → s.AtRow c.projectedThrough)
    (hbatch : ∀ b, s'.batch = some b → s.AtRow b.projectedThrough)
    (habove : ∀ r, s'.running = some r → r.insertedBehind = false) : Growing parse s' where
  pass := hpass
  row_line := by
    rw [hevents, hfile]
    exact h.row_line
  no_gap := by
    rw [hevents, hfile]
    exact h.no_gap
  cursor := by
    simpa only [State.AtRow, hevents] using hcursor
  batch := by
    simpa only [State.AtRow, hevents] using hbatch
  above := habove

theorem Growing.cursor_of_map (h : Growing parse s)
    (hcursor : s'.cursor = s.cursor ∨
      s'.cursor = s.cursor.map fun c => { c with projectionVersion := 0 }) :
    ∀ c, s'.cursor = some c → s.AtRow c.projectedThrough := by
  intro c hc
  rcases hcursor with hcursor | hcursor
  · exact h.cursor c (hcursor ▸ hc)
  · rw [hcursor, Option.map_eq_some_iff] at hc
    obtain ⟨c', hc', rfl⟩ := hc
    exact h.cursor c' hc'

theorem atRow_eventsAfter {through : Int} (h : s.AtRow through) (budget : Nat) :
    s.AtRow ((eventsAfter s through budget).getLast?.elim through fun e => (e.1 : Int)) := by
  cases hlast : (eventsAfter s through budget).getLast? with
  | none => exact h
  | some e =>
      have hmem : e ∈ s.tail.events.toList :=
        (List.mem_filter.mp (List.mem_of_mem_take (List.mem_of_getLast? hlast))).1
      have hrow := Std.ExtTreeMap.mem_toList_iff_getElem?_eq_some.mp hmem
      exact .inr ⟨e.1, Option.isSome_iff_exists.mpr ⟨e.2, hrow⟩, rfl⟩

/-- A batch ends at the row it has loaded last, or where it began. -/
theorem atRow_loadBatch {budget : Nat} {turns : Finset Nat} {b : Batch} (h : Growing parse s)
    (hstep : loadBatch s budget turns = some s') (hb : s'.batch = some b) :
    s.AtRow b.projectedThrough := by
  unfold loadBatch at hstep
  split at hstep <;> cases hstep
  obtain rfl := Option.some.inj hb
  refine atRow_eventsAfter ?_ budget
  split
  · exact .inl rfl
  · cases hc : s.cursor with
    | none => exact .inl rfl
    | some c => exact h.cursor c hc

theorem batch_of_step {a : Step} (hstep : sessionStep parse sha256 s a = some s')
    (ha : a.writesTimeline = false ∨ a = .endPass ∨ a = .markRebuild) : s'.batch = s.batch := by
  rcases ha with ha | rfl | rfl
  · exact (sameTimeline_of_not_writes hstep ha).batch
  · simp only [sessionStep, endPass] at hstep
    split at hstep
    · split at hstep
      · obtain ⟨_, rfl⟩ := requestRebuild_eq hstep
        rfl
      · cases hstep
        rfl
    · cases hstep
  · simp only [sessionStep, markRebuild] at hstep
    split at hstep
    · cases hstep
    · obtain ⟨_, rfl⟩ := requestRebuild_eq hstep
      rfl

theorem finishWalk_file {p : Pass} {t : Tail} {w : Walk} : (finishWalk p t w).1.file = t.file := by
  unfold finishWalk skipOversizedLine
  repeat' split
  all_goals first | exact setOffset_file | rfl

theorem file_of_ingest {a : Step} (hstep : sessionStep parse sha256 s a = some s')
    (ha : a.task = .ingest) : s'.tail.file = s.tail.file := by
  cases a with
  | beginPass p =>
      simp only [sessionStep, beginPass] at hstep
      split at hstep
      · cases hstep
      split at hstep
      · cases hstep
        rfl
      split at hstep <;> cases hstep
      · exact setOffset_file
      · rfl
  | insertLine =>
      simp only [sessionStep, insertLine] at hstep
      split at hstep
      · split at hstep <;> cases hstep <;> rfl
      · cases hstep
  | commitOffset =>
      simp only [sessionStep, commitOffset] at hstep
      split at hstep
      · rename_i p w behind _
        have hfile := finishWalk_file (p := p) (t := s.tail) (w := w)
        split at hstep
        all_goals
          rename_i hfinish
          cases hstep
          rwa [hfinish] at hfile
      · cases hstep
  | checkCursor =>
      simp only [sessionStep, checkCursor] at hstep
      split at hstep <;> cases hstep
      rfl
  | endPass =>
      simp only [sessionStep, endPass] at hstep
      split at hstep
      · split at hstep
        · obtain ⟨_, rfl⟩ := requestRebuild_eq hstep
          rfl
        · cases hstep
          rfl
      · cases hstep
  | _ => cases ha

/-- The control points of a pass besides the insert keep what it has inserted. -/
theorem insertedBehind_of_step {a : Step} (h : ∀ r, s.running = some r → r.insertedBehind = false)
    (hstep : sessionStep parse sha256 s a = some s') (ha : a ≠ .insertLine) :
    ∀ r, s'.running = some r → r.insertedBehind = false := by
  by_cases hingest : a.task = .ingest
  · cases a with
    | insertLine => exact absurd rfl ha
    | beginPass p =>
        simp only [sessionStep, beginPass] at hstep
        split at hstep
        · cases hstep
        split at hstep
        · cases hstep
          exact h
        split at hstep <;> cases hstep
        · exact h
        · intro r hr
          obtain rfl := Option.some.inj hr
          rfl
    | commitOffset =>
        simp only [sessionStep, commitOffset] at hstep
        split at hstep
        · rename_i hr₀
          have hbehind := h _ hr₀
          split at hstep <;> cases hstep
          · rintro _ ⟨⟩
          · intro r hr
            obtain rfl := Option.some.inj hr
            exact hbehind
        · cases hstep
    | checkCursor =>
        simp only [sessionStep, checkCursor] at hstep
        split at hstep
        · rename_i hr₀
          have hbehind := h _ hr₀
          cases hstep
          intro r hr
          obtain rfl := Option.some.inj hr
          exact hbehind
        · cases hstep
    | endPass =>
        intro r hr
        rw [running_endPass hstep] at hr
        cases hr
    | _ => cases hingest
  · rw [running_of_task hstep hingest]
    exact h

theorem growing_preserved : Preserved (sessionStep parse sha256) grows (Growing parse) := by
  intro s a s' h hok hstep
  have hkeep : ∀ k, HasRow s.tail.events k → a.task ≠ .archive → HasRow s'.tail.events k :=
    fun k hk ha => hasRow_of_task hstep ha hk
  by_cases htranscript : a.task = .transcript
  · cases a with
    | append bytes =>
        cases hstep
        exact h.append bytes
    | replace file => exact hok.elim
    | _ => cases htranscript
  by_cases hinsert : a = .insertLine
  · subst hinsert
    exact growing_insertLine h hok hstep
  have harchive : a.task ≠ .archive := by
    cases a <;> first | exact hok | rintro ⟨⟩
  have hevents := events_of_not_insert hstep harchive hinsert
  have habove := insertedBehind_of_step h.above hstep hinsert
  by_cases hingest : a.task = .ingest
  · have hpass : PassSound parse (HasRow s'.tail.events) s' :=
      passSound_step h.pass (.inl hingest) (fun ha => absurd ha hinsert)
        (fun k hk => hkeep k hk harchive)
        (fun _ => id) hstep
    have hbatch : s'.batch = s.batch := batch_of_step hstep <| by
      cases a <;> first | exact .inl rfl | exact .inr (.inl rfl) | cases hingest
    refine h.of_same hpass (file_of_ingest hstep hingest) hevents
      (h.cursor_of_map (cursor_of_step hstep ?_)) ?_ habove
    · rintro rfl
      cases hingest
    · rw [hbatch]
      exact h.batch
  · have hproj : a.task = .projection := by
      cases htask : a.task <;> first | rfl | exact absurd htask ‹_›
    have hsame := samePass_of_task hstep (.inl hproj)
    have hpass : PassSound parse (HasRow s'.tail.events) s' :=
      h.pass.mono hsame.file hsame.lastCommitted hsame.running fun k hk => hkeep k hk harchive
    cases a with
    | commitBatch =>
        simp only [sessionStep, commitBatch] at hstep
        split at hstep
        · cases hstep
        · rename_i b hb
          cases hstep
          refine h.of_same hpass rfl rfl (fun c hc => ?_) (by rintro _ ⟨⟩) h.above
          obtain rfl := Option.some.inj hc
          exact h.batch b hb
    | loadBatch budget turns =>
        exact h.of_same hpass hsame.file hevents (h.cursor_of_map (cursor_of_step hstep (by rintro ⟨⟩)))
          (fun b hb => atRow_loadBatch h hstep hb) habove
    | checkBatch | checkRebuild | markRebuild =>
        refine h.of_same hpass hsame.file hevents (h.cursor_of_map (cursor_of_step hstep (by rintro ⟨⟩))) ?_
          habove
        rw [batch_of_step hstep (by simp [Step.writesTimeline])]
        exact h.batch
    | _ => cases hproj

theorem growing_new (file : List UInt8) : Growing parse (.new file) where
  pass := passSound_new file
  row_line k hk := by simp [State.new, Tail.new, HasRow] at hk
  no_gap _ _ k hk := by simp [State.new, Tail.new, HasRow] at hk
  cursor := nofun
  batch := nofun
  above := nofun

/-! ## Every run -/

/-- **A rebuild is requested when it is needed.** In every run in which no batch carries the
cursor across the first inserted offset of a pass that has yet to read the cursor, a pass ends
by marking the session exactly when it has inserted a line at or below the cursor of that
moment; in a run over a transcript that only grows it never does. -/
theorem rebuild_requested_iff_inserted_behind (parse : List UInt8 → Option Json)
    (sha256 : ArchiveLines → String) (file : List UInt8) (s s' : State) (r : RunningPass)
    (hrun : Run (sessionStep parse sha256) batchKeepsSide (.new file) s)
    (hr : s.running = some r) (hstep : endPass s = some s') :
    MarksIff r.insertedBehind s s' ∧
      (Run (sessionStep parse sha256) (fun s a => batchKeepsSide s a ∧ grows s a) (.new file) s →
        s'.cursor = s.cursor) := by
  have hsided := hrun.invariant sided_preserved (by simp [State.new]) r hr
  have hmarks : MarksIff r.insertedBehind s s' := marksIff_endPass hr hsided hstep
  refine ⟨hmarks, fun hgrows => ?_⟩
  have hgrowing := (hgrows.mono fun _ _ h => h.2).invariant growing_preserved (growing_new file)
  rw [MarksIff, hgrowing.above r hr] at hmarks
  exact hmarks

/-! ## A replaced transcript, and a batch that comes in between -/

instance (s : State) (a : Step) : Decidable (batchKeepsSide s a) :=
  match a with
  | .commitBatch =>
      inferInstanceAs (Decidable (∀ b ∈ s.batch, ∀ r ∈ s.running,
        r.stage = .inserting ∨ r.stage = .checking → ∀ o ∈ r.walk.result.firstInsertedOffset, _))
  | .append _ | .replace _ | .beginPass _ | .insertLine | .commitOffset | .checkCursor | .endPass
  | .checkBatch | .loadBatch _ _ | .checkRebuild | .markRebuild | .selectExport | .streamEvents _
  | .putObject | .recordExport | .purgeSession | .fetchObject | .withdrawAndClear | .replayLine
  | .endRestore | .stopArchiver => isTrue trivial

instance (s : State) (a : Step) : Decidable (grows s a) :=
  match a with
  | .replace _ => isFalse id
  | .insertLine => inferInstanceAs (Decidable (NextInsertOk s))
  | .append _ | .beginPass _ | .commitOffset | .checkCursor | .endPass | .checkBatch
  | .loadBatch _ _ | .commitBatch | .checkRebuild | .markRebuild => isTrue nofun
  | .selectExport | .streamEvents _ | .putObject | .recordExport | .purgeSession | .fetchObject
  | .withdrawAndClear | .replayLine | .endRestore | .stopArchiver => isFalse fun h => h rfl

/-- Shorter than `twoLines`, with its line at offset 1. -/
def replacedLines : List UInt8 := [0x0A, 0x7B, 0x7D, 0x0A]

/-- A pass over `replacedLines`. -/
def replacedPass : Pass := ⟨4, false, fun _ => false, fun _ => false, false⟩

/-- `twoLines` is ingested, projected and replaced; the second pass over the new file inserts
at offset 1, below the cursor. -/
def replacedSteps : List Step :=
  ingestSteps ++
    [.replace replacedLines, .beginPass replacedPass, .beginPass replacedPass, .insertLine,
      .insertLine, .commitOffset, .checkCursor]

/-- A pass over `twoLines`, with a batch between its two inserts that finds nothing new. -/
def grownSteps : List Step :=
  [.checkBatch, .loadBatch 500 ∅, .beginPass twoLinesPass, .insertLine, .commitBatch, .insertLine,
    .commitOffset, .checkCursor]

theorem rebuild_requested_iff_inserted_behind_replaced :
    (∃ s s' r, s.running = some r ∧ endPass s = some s' ∧ r.insertedBehind = true ∧
      MarksIff r.insertedBehind s s') ∧
    ∃ s s' r, s.running = some r ∧ endPass s = some s' ∧ r.insertedBehind = false ∧
      s'.cursor = s.cursor :=
  ⟨⟨sampleState (.new twoLines) replacedSteps, _, _, rfl, rfl, rfl,
      (rebuild_requested_iff_inserted_behind parseSample sampleSha256 twoLines _ _ _
        (.of_restrict replacedSteps rfl) rfl rfl).1⟩,
    ⟨sampleState (.new twoLines) grownSteps, _, _, rfl, rfl, rfl,
      (rebuild_requested_iff_inserted_behind parseSample sampleSha256 twoLines _ _ _
        (.of_restrict grownSteps rfl) rfl rfl).2 (.of_restrict grownSteps rfl)⟩⟩

/-- The batch applies the line the pass has inserted before the pass reads the cursor. -/
def appliedSteps : List Step :=
  [.beginPass twoLinesPass, .insertLine, .checkBatch, .loadBatch 500 {0}, .commitBatch, .insertLine,
    .commitOffset, .checkCursor]

theorem applied_line_requests_rebuild :
    ∃ s s' r, Run (sessionStep parseSample sampleSha256) grows (.new twoLines) s ∧
      s.running = some r ∧ endPass s = some s' ∧ ¬ MarksIff r.insertedBehind s s' := by
  refine ⟨sampleState (.new twoLines) appliedSteps, _, _, .of_restrict appliedSteps rfl, rfl,
    rfl, ?_⟩
  rw [MarksIff]
  decide

end Sulion.Session
