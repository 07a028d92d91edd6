import Sulion.Lib.Lines
import Sulion.Lib.Transition
import Sulion.Ingest.Events

set_option autoImplicit false

/-! # One pass over a transcript file

`process_file` reads the bytes appended since the committed offset, inserts one event per
line, each in its own transaction, and then commits the offset. The pass is modelled with
everything it depends on: what the scan saw, when the admission closes, and which of its
statements fail.

A failed insert is logged and the walk goes on, so the offset committed at the end can
outrun it. `events_of_committed_lines` is what holds nevertheless: no line below the
committed offset is lost in a run whose failed inserts are never committed over.
-/

namespace Sulion.Ingest

open Rust Lines Transition

/-! ## The pass -/

/-- Ceiling on how much of a file's delta is buffered in one tick, and with it the longest
line, its newline included, that the ingester accepts. -/
def maxReadBytes : Nat := 8 * 1024 * 1024

/-- `ADMIT_LINES_PER_TICK`. -/
def admitLinesPerTick : Nat := 2000

def newline : UInt8 := 0x0A

/-- `u8::is_ascii_whitespace`. -/
def isAsciiWhitespace (b : UInt8) : Bool :=
  b == 0x20 || b == 0x09 || b == 0x0A || b == 0x0C || b == 0x0D

/-- A line of a transcript, without its newline. -/
abbrev TranscriptLine := Line UInt8

def TranscriptLine.isBlank (line : TranscriptLine) : Bool := line.cells.all isAsciiWhitespace

/-- What `insert_event` returns. -/
inductive InsertResult
  | ok (inserted : Bool)
  | parseFailed
  | db
  deriving DecidableEq, Repr

/-- What a pass over one file meets: the length the scan saw, whether the session is purged,
after how many lines the admission time is over, which inserts fail, by offset, and whether
`set_offset` fails. -/
structure Pass where
  fileLen : Nat
  purged : Bool
  timeOver : Nat → Bool
  insertFails : Nat → Bool
  setOffsetFails : Bool

/-- The file and what the database holds of it. -/
structure Tail where
  file : List UInt8
  /-- `last_committed_byte_offset`, when `ingester_state` has a row. -/
  lastCommitted : Option Nat
  /-- The stored payloads, by byte offset. -/
  events : Table Nat Json

def Tail.committedOffset (t : Tail) : Nat := t.lastCommitted.getD 0

/-- A transcript of which nothing is ingested yet. -/
def Tail.new (file : List UInt8) : Tail := ⟨file, none, ∅⟩

/-- The part of `FileResult` the caller reads, with the first offset a row was inserted at. -/
structure FileResult where
  eventsInserted : Nat
  parseErrors : Nat
  committedOffset : Nat
  backlogged : Bool
  firstInsertedOffset : Option Nat
  deriving DecidableEq, Repr

/-- `INSERT INTO events … ON CONFLICT (session_uuid, byte_offset) DO NOTHING`, and whether a
row was inserted. -/
def storeEvent (events : Table Nat Json) (byteOffset : Nat) (payload : Json) :
    Table Nat Json × Bool :=
  if (events[byteOffset]?).isSome then (events, false) else (events.insert byteOffset payload, true)

/-- `parse` is `serde_json::from_slice`; `fails` says that the transaction errs, which leaves
no row. -/
def insertEvent (parse : List UInt8 → Option Json) (fails : Bool) (events : Table Nat Json)
    (line : TranscriptLine) : Table Nat Json × InsertResult :=
  if line.isBlank then (events, .ok false)
  else
    match parse line.cells with
    | none => (events, .parseFailed)
    | some payload =>
        if fails then (events, .db)
        else
          let (events, inserted) := storeEvent events line.start payload
          (events, .ok inserted)

/-- A file's slice of this tick is spent; at least one line always goes in. -/
def admissionClosed (p : Pass) (admitted : Nat) : Bool :=
  admitted == admitLinesPerTick || (decide (0 < admitted) && p.timeOver admitted)

/-- The variables of the insert loop. -/
structure Walk where
  admitted : Nat
  nextCommitted : Nat
  result : FileResult
  deriving DecidableEq, Repr

/-- The loop's bookkeeping for one line whose insert returned `inserted`. -/
def Walk.record (w : Walk) (line : TranscriptLine) (inserted : InsertResult) : Walk where
  admitted := w.admitted + 1
  nextCommitted := line.stop
  result :=
    match inserted with
    | .ok true =>
        { w.result with
          firstInsertedOffset := w.result.firstInsertedOffset.or (some line.start)
          eventsInserted := w.result.eventsInserted + 1 }
    | .ok false => w.result
    | .parseFailed => { w.result with parseErrors := w.result.parseErrors + 1 }
    | .db => w.result

/-- The admission closed with lines still waiting. -/
def Walk.close (w : Walk) : Walk := { w with result := { w.result with backlogged := true } }

/-- The insert loop over the terminated lines of the buffer. -/
def walkLines (parse : List UInt8 → Option Json) (p : Pass) :
    Table Nat Json → Walk → List TranscriptLine → Table Nat Json × Walk
  | events, w, [] => (events, w)
  | events, w, line :: lines =>
      if admissionClosed p w.admitted then (events, w.close)
      else
        let (events, inserted) := insertEvent parse (p.insertFails line.start) events line
        walkLines parse p events (w.record line inserted) lines

/-- Offset just past the next newline at or after `from_`, if there is one. -/
def nextLineBoundary (file : List UInt8) (from_ : Nat) : Option Nat :=
  ((file.drop from_).findIdx? (· = newline)).map (from_ + · + 1)

/-- The bytes the pass buffers. -/
def readBuffer (p : Pass) (t : Tail) : List UInt8 :=
  (t.file.drop t.committedOffset).take (min (p.fileLen - t.committedOffset) maxReadBytes)

/-- `set_offset`, and the result of a pass that ends there; no result when it fails. -/
def setOffset (p : Pass) (t : Tail) (offset : Nat) (result : FileResult) :
    Tail × Option FileResult :=
  if p.setOffsetFails then (t, none)
  else ({ t with lastCommitted := some offset }, some { result with committedOffset := offset })

/-- `skip_oversized_line`. -/
def skipOversizedLine (p : Pass) (t : Tail) (scanned : Nat) (result : FileResult) :
    Tail × Option FileResult :=
  match nextLineBoundary t.file (t.committedOffset + scanned) with
  | some resume => setOffset p t resume { result with parseErrors := result.parseErrors + 1 }
  | none => (t, some result)

/-- The result of a pass that has not inserted anything yet. -/
def FileResult.start (t : Tail) : FileResult := ⟨0, 0, t.committedOffset, false, none⟩

/-- The insert loop before its first line. -/
def Walk.start (t : Tail) : Walk := ⟨0, t.committedOffset, .start t⟩

/-- The terminated lines in the buffer. -/
def bufferLines (p : Pass) (t : Tail) : List TranscriptLine :=
  splitFrom newline t.committedOffset [] (readBuffer p t)

/-- What `process_file` does after the insert loop: skip an oversized line, or commit the
offset the loop has reached. -/
def finishWalk (p : Pass) (t : Tail) (w : Walk) : Tail × Option FileResult :=
  if w.nextCommitted = t.committedOffset ∧ maxReadBytes ≤ (readBuffer p t).length then
    skipOversizedLine p t (readBuffer p t).length w.result
  else if w.nextCommitted ≠ t.committedOffset then setOffset p t w.nextCommitted w.result
  else (t, some w.result)

/-- `process_file` up to the rebuild check that ends it. -/
def processFile (parse : List UInt8 → Option Json) (p : Pass) (t : Tail) :
    Tail × Option FileResult :=
  if p.purged then (t, some (.start t))
  else if p.fileLen < t.committedOffset then setOffset p t 0 (.start t)
  else
    let (events, w) := walkLines parse p t.events (.start t) (bufferLines p t)
    finishWalk p { t with events := events } w

/-! ## What one pass stores -/

/-- `insert_event` has a row to insert for this line. -/
def Storable (parse : List UInt8 → Option Json) (line : TranscriptLine) : Prop :=
  line.isBlank = false ∧ (parse line.cells).isSome

/-- A row is stored under this offset. -/
def HasRow (events : Table Nat Json) (offset : Nat) : Prop := (events[offset]?).isSome

/-- The lines the admission lets in, of those still in the buffer. -/
def admittedLines (p : Pass) : Nat → List TranscriptLine → List TranscriptLine
  | _, [] => []
  | admitted, line :: lines =>
      if admissionClosed p admitted then [] else line :: admittedLines p (admitted + 1) lines

variable {parse : List UInt8 → Option Json} {p : Pass}

theorem admittedLines_isPrefix (p : Pass) (admitted : Nat) (lines : List TranscriptLine) :
    admittedLines p admitted lines <+: lines := by
  induction lines generalizing admitted with
  | nil => exact List.prefix_refl []
  | cons line lines ih =>
      rw [admittedLines]
      split
      · exact List.nil_prefix
      · exact (List.prefix_cons_inj line).mpr (ih _)

/-- The first line is always let in. -/
theorem admittedLines_ne_nil {lines : List TranscriptLine} (h : lines ≠ []) :
    admittedLines p 0 lines ≠ [] := by
  cases lines with
  | nil => exact absurd rfl h
  | cons line lines =>
      have hopen : admissionClosed p 0 = false := by simp [admissionClosed, admitLinesPerTick]
      simp [admittedLines, hopen]

theorem storeEvent_hasRow_iff {events : Table Nat Json} {byteOffset k : Nat} {payload : Json} :
    HasRow (storeEvent events byteOffset payload).1 k ↔ HasRow events k ∨ k = byteOffset := by
  unfold storeEvent HasRow
  split
  · rename_i hrow
    exact ⟨.inl, fun h => h.elim id fun hk => hk ▸ hrow⟩
  · rw [Table.lookup_insert]
    split
    · rename_i hk
      simp [hk]
    · rename_i hk
      simp [Ne.symm hk]

theorem insertEvent_keeps {fails : Bool} {events : Table Nat Json} {line : TranscriptLine} {k : Nat}
    (h : HasRow events k) : HasRow (insertEvent parse fails events line).1 k := by
  unfold insertEvent
  split
  · exact h
  · split
    · exact h
    · split
      · exact h
      · exact storeEvent_hasRow_iff.mpr (.inl h)

/-- After its insert a storable line has a row, unless the insert failed and it had none. -/
theorem insertEvent_stores {fails : Bool} {events : Table Nat Json} {line : TranscriptLine}
    (hs : Storable parse line) (h : fails = true → HasRow events line.start) :
    HasRow (insertEvent parse fails events line).1 line.start := by
  obtain ⟨payload, hpayload⟩ := Option.isSome_iff_exists.mp hs.2
  simp only [insertEvent, hs.1, hpayload]
  cases fails with
  | true => exact h rfl
  | false => exact storeEvent_hasRow_iff.mpr (.inr rfl)

/-- A row that was not there before is that of the inserted line. -/
theorem hasRow_insertEvent {fails : Bool} {events : Table Nat Json} {line : TranscriptLine}
    {k : Nat} (h : HasRow (insertEvent parse fails events line).1 k) :
    HasRow events k ∨ Storable parse line ∧ line.start = k := by
  unfold insertEvent at h
  split at h
  · exact .inl h
  · rename_i hblank
    split at h
    · exact .inl h
    · rename_i payload hpayload
      split at h
      · exact .inl h
      · have hs : Storable parse line := ⟨by simpa using hblank, by simp [hpayload]⟩
        exact (storeEvent_hasRow_iff.mp h).imp_right fun hk => ⟨hs, hk.symm⟩

/-- `insert_event` reports a row where there was none. -/
theorem insertEvent_inserted {fails : Bool} {events : Table Nat Json} {line : TranscriptLine}
    (h : (insertEvent parse fails events line).2 = .ok true) :
    Storable parse line ∧ ¬ HasRow events line.start := by
  unfold insertEvent storeEvent at h
  split at h
  · cases h
  · rename_i hblank
    split at h
    · cases h
    · rename_i payload hpayload
      split at h
      · cases h
      · by_cases hrow : (events[line.start]?).isSome
        · simp [hrow] at h
        · exact ⟨⟨by simpa using hblank, by simp [hpayload]⟩, hrow⟩

theorem walkLines_keeps {events : Table Nat Json} {w : Walk} {lines : List TranscriptLine} {k : Nat}
    (h : HasRow events k) : HasRow (walkLines parse p events w lines).1 k := by
  induction lines generalizing events w with
  | nil => exact h
  | cons line lines ih =>
      rw [walkLines]
      split
      · exact h
      · exact ih (insertEvent_keeps h)

theorem walkLines_nextCommitted (events : Table Nat Json) (w : Walk) (lines : List TranscriptLine) :
    (walkLines parse p events w lines).2.nextCommitted
      = stopOf w.nextCommitted (admittedLines p w.admitted lines) := by
  induction lines generalizing events w with
  | nil => rfl
  | cons line lines ih =>
      rw [walkLines, admittedLines]
      split
      · rfl
      · exact ih _ _

theorem walkLines_stores {events : Table Nat Json} {w : Walk} {lines : List TranscriptLine}
    {line : TranscriptLine} (hmem : line ∈ admittedLines p w.admitted lines)
    (hs : Storable parse line) (h : p.insertFails line.start = true → HasRow events line.start) :
    HasRow (walkLines parse p events w lines).1 line.start := by
  induction lines generalizing events w with
  | nil => cases hmem
  | cons first lines ih =>
      rw [walkLines]
      rw [admittedLines] at hmem
      split at hmem
      · cases hmem
      · rename_i hopen
        rw [if_neg hopen]
        rcases List.mem_cons.mp hmem with rfl | hmem
        · exact walkLines_keeps (insertEvent_stores hs h)
        · exact ih hmem fun hf => insertEvent_keeps (h hf)

/-! ## Committed lines -/

/-- The lines the pass hands to `insert_event`. -/
def Pass.lines (p : Pass) (t : Tail) : List TranscriptLine :=
  if p.purged = true ∨ p.fileLen < t.committedOffset then []
  else admittedLines p 0 (bufferLines p t)

/-- A terminated line of the file that the ingester accepts. The read window bounds a line
together with its newline. -/
structure Accepted (parse : List UInt8 → Option Json) (file : List UInt8) (line : TranscriptLine) :
    Prop where
  isLine : IsLine newline file line
  storable : Storable parse line
  short : line.cells.length + 1 ≤ maxReadBytes

/-- Every accepted line below the committed offset has its row. -/
def Tail.CommittedStored (parse : List UInt8 → Option Json) (t : Tail) : Prop :=
  ∀ line, Accepted parse t.file line → line.stop ≤ t.committedOffset → HasRow t.events line.start

/-- The committed offset is a line boundary inside the file. -/
structure Tail.AtBoundary (t : Tail) : Prop where
  le_length : t.committedOffset ≤ t.file.length
  boundary : Boundary newline t.file t.committedOffset

/-- The lines below the committed offset are kept, in whatever sense. -/
structure Tail.Sound (parse : List UInt8 → Option Json) (kept : Nat → Prop) (t : Tail) : Prop
    extends t.AtBoundary where
  stored : ∀ line, Accepted parse t.file line → line.stop ≤ t.committedOffset → kept line.start

theorem nextLineBoundary_eq_some {file : List UInt8} {from_ resume : Nat}
    (h : nextLineBoundary file from_ = some resume) :
    from_ < resume ∧ resume ≤ file.length ∧ file[resume - 1]? = some newline ∧
      ∀ i, from_ ≤ i → i < resume - 1 → file[i]? ≠ some newline := by
  obtain ⟨index, hindex, rfl⟩ := Option.map_eq_some_iff.mp h
  obtain ⟨hlt, hsep, hmin⟩ := List.findIdx?_eq_some_iff_getElem.mp hindex
  rw [List.length_drop] at hlt
  refine ⟨by omega, by omega, ?_, fun i hi hi' hsome => ?_⟩
  · rw [Nat.add_sub_cancel, ← List.getElem?_drop,
      List.getElem?_eq_getElem (by rw [List.length_drop]; omega)]
    simpa using hsep
  · have hj := hmin (i - from_) (by omega)
    rw [List.getElem_drop] at hj
    obtain ⟨hilt, hieq⟩ := List.getElem?_eq_some_iff.mp hsome
    have hidx : from_ + (i - from_) = i := by omega
    simp [hidx, hieq] at hj

variable {kept kept' : Nat → Prop}

/-- A boundary never falls inside a line. -/
theorem Tail.AtBoundary.le_start {t : Tail} (ht : t.AtBoundary) {line : TranscriptLine}
    (hline : IsLine newline t.file line) (hstop : ¬ line.stop ≤ t.committedOffset) :
    t.committedOffset ≤ line.start := by
  by_contra hstart
  obtain ⟨p, hp⟩ : ∃ p, p + 1 = t.committedOffset := ⟨t.committedOffset - 1, by omega⟩
  have hi : p - line.start < line.cells.length := by
    rw [Line.stop] at hstop
    omega
  refine hline.ne_sep hi ?_
  rw [Nat.add_sub_cancel' (by omega)]
  exact ht.boundary p hp

/-- Advancing the offset keeps what is committed, if every accepted line in between is
kept. -/
theorem Tail.Sound.advance {t t' : Tail} (ht : t.Sound parse kept) (hfile : t'.file = t.file)
    (hkeep : ∀ k, kept k → kept' k)
    (hle : t'.committedOffset ≤ t.file.length)
    (hbound : Boundary newline t.file t'.committedOffset)
    (hnew : ∀ line, Accepted parse t.file line → t.committedOffset ≤ line.start →
      line.stop ≤ t'.committedOffset → kept' line.start) : t'.Sound parse kept' where
  le_length := by rw [hfile]; exact hle
  boundary := by rw [hfile]; exact hbound
  stored line hline hstop := by
    rw [hfile] at hline
    by_cases hold : line.stop ≤ t.committedOffset
    · exact hkeep _ (ht.stored line hline hold)
    · exact hnew line hline (ht.le_start hline.isLine hold) hstop

/-- Rows may be added while file and offset stay. -/
theorem Tail.Sound.mono {t t' : Tail} (ht : t.Sound parse kept) (hfile : t'.file = t.file)
    (hcommitted : t'.lastCommitted = t.lastCommitted) (hkeep : ∀ k, kept k → kept' k) :
    t'.Sound parse kept' := by
  have hoff : t'.committedOffset = t.committedOffset := by simp [Tail.committedOffset, hcommitted]
  refine ht.advance hfile hkeep (hoff ▸ ht.le_length) (hoff ▸ ht.boundary) ?_
  intro line _ hstart hstop
  rw [hoff] at hstop
  rw [Line.stop] at hstop
  omega

/-- Going back to the start commits no line at all. -/
theorem Tail.Sound.reset {t : Tail} : Tail.Sound parse kept { t with lastCommitted := some 0 } where
  le_length := Nat.zero_le _
  boundary := boundary_zero
  stored line _ hstop := by
    have : line.stop ≤ 0 := hstop
    rw [Line.stop] at this
    omega

theorem Tail.Sound.new (file : List UInt8) : (Tail.new file).Sound parse kept where
  le_length := Nat.zero_le _
  boundary := boundary_zero
  stored line _ hstop := by
    have : line.stop ≤ 0 := hstop
    rw [Line.stop] at this
    omega

theorem Tail.Sound.append {t : Tail} (ht : t.Sound parse kept) (bytes : List UInt8) :
    Tail.Sound parse kept { t with file := t.file ++ bytes } where
  le_length := by
    have := ht.le_length
    show t.committedOffset ≤ (t.file ++ bytes).length
    rw [List.length_append]
    omega
  boundary := boundary_append ht.le_length ht.boundary
  stored line hline hstop :=
    ht.stored line
      { hline with isLine := (isLine_append_iff (hstop.trans ht.le_length)).mp hline.isLine } hstop

/-- Where no newline follows within the read window, the line there is too long. -/
theorem oversized_line {t : Tail} {resume : Nat}
    (hbuf : newline ∉ readBuffer p t) (hfull : maxReadBytes ≤ (readBuffer p t).length)
    (hresume : nextLineBoundary t.file (t.committedOffset + (readBuffer p t).length) = some resume)
    {line : TranscriptLine} (hline : IsLine newline t.file line)
    (hstart : t.committedOffset ≤ line.start) (hstop : line.stop ≤ resume) :
    ¬ line.cells.length + 1 ≤ maxReadBytes := by
  obtain ⟨_, _, _, hmin⟩ := nextLineBoundary_eq_some hresume
  -- No newline stands between the committed offset and the one before `resume`.
  have hnone : ∀ i, t.committedOffset ≤ i → i < resume - 1 → t.file[i]? ≠ some newline := by
    intro i hi hi' hsome
    by_cases hin : i < t.committedOffset + (readBuffer p t).length
    · refine hbuf (List.mem_of_getElem? (i := i - t.committedOffset) ?_)
      rw [readBuffer, List.getElem?_take_of_lt, List.getElem?_drop, Nat.add_sub_cancel' hi]
      · exact hsome
      · rw [readBuffer, List.length_take] at hin
        omega
    · exact hmin i (by omega) hi' hsome
  have hfirst : line.start = t.committedOffset := by
    by_contra hne
    obtain ⟨q, hq⟩ : ∃ q, q + 1 = line.start := ⟨line.start - 1, by omega⟩
    rw [Line.stop] at hstop
    exact hnone q (by omega) (by omega) (hline.boundary q hq)
  have hend : resume - 1 ≤ line.start + line.cells.length := by
    by_contra hlt
    exact hnone (line.start + line.cells.length) (by omega) (by omega) hline.terminated
  have hresume_gt := (nextLineBoundary_eq_some hresume).1
  omega

/-- The pass commits over no failed insert: where the offset is committed, every storable
line whose insert failed already had its row. -/
def Pass.FailuresCovered (parse : List UInt8 → Option Json) (p : Pass) (t : Tail) : Prop :=
  p.setOffsetFails = true ∨
    ∀ line ∈ p.lines t, Storable parse line → p.insertFails line.start = true →
      HasRow t.events line.start

theorem sound_setOffset {t : Tail} {offset : Nat} {result : FileResult}
    (hfail : p.setOffsetFails = true → t.Sound parse kept)
    (hset : p.setOffsetFails = false →
      Tail.Sound parse kept { t with lastCommitted := some offset }) :
    (setOffset p t offset result).1.Sound parse kept := by
  unfold setOffset
  split
  · rename_i h
    exact hfail h
  · rename_i h
    exact hset (by simpa using h)

/-- The end of a pass whose loop has come to `w` by walking the lines `lines`. -/
theorem sound_finishWalk {t : Tail} {w : Walk} {lines : List TranscriptLine}
    (ht : t.Sound parse kept)
    (hcons : Consecutive newline t.file t.committedOffset lines)
    (hnext : w.nextCommitted = stopOf t.committedOffset lines)
    (hempty : lines = [] → newline ∉ readBuffer p t)
    (hkept : p.setOffsetFails = false → ∀ line ∈ lines, Storable parse line → kept line.start) :
    (finishWalk p t w).1.Sound parse kept := by
  unfold finishWalk
  split
  · -- No line was admitted, so the full buffer has no newline.
    rename_i hover
    have hbuf : newline ∉ readBuffer p t := by
      refine hempty ?_
      by_contra hne
      have := hcons.lt_stopOf hne
      omega
    unfold skipOversizedLine
    split
    · rename_i resume hresume
      have hfacts := nextLineBoundary_eq_some hresume
      refine sound_setOffset (fun _ => ht) fun _ => ht.advance rfl (fun _ => id) hfacts.2.1 ?_ ?_
      · intro q hq
        have hq : q + 1 = resume := hq
        have := hfacts.2.2.1
        rwa [← hq, Nat.add_sub_cancel] at this
      · intro line hline hstart hstop
        exact absurd hline.short (oversized_line hbuf hover.2 hresume hline.isLine hstart hstop)
    · exact ht
  split
  · refine sound_setOffset (fun _ => ht) fun hset => ht.advance rfl (fun _ => id) ?_ ?_ ?_
    · show w.nextCommitted ≤ _
      rw [hnext]
      exact hcons.stopOf_le ht.le_length
    · show Boundary newline t.file w.nextCommitted
      rw [hnext]
      exact hcons.boundary_stopOf ht.boundary
    · intro line hline hstart hstop
      exact hkept hset line (hcons.mem_of_isLine hline.isLine hstart (hnext ▸ hstop)) hline.storable
  · exact ht

theorem consecutive_bufferLines {t : Tail} (ht : t.AtBoundary) (p : Pass) :
    Consecutive newline t.file t.committedOffset (bufferLines p t) :=
  consecutive_of_take_drop ht.boundary

theorem bufferLines_eq_nil_iff {p : Pass} {t : Tail} :
    bufferLines p t = [] ↔ newline ∉ readBuffer p t := splitFrom_eq_nil_iff

theorem setOffset_events {t : Tail} {offset : Nat} {result : FileResult} :
    (setOffset p t offset result).1.events = t.events := by
  unfold setOffset
  split <;> rfl

theorem finishWalk_events {t : Tail} {w : Walk} : (finishWalk p t w).1.events = t.events := by
  unfold finishWalk skipOversizedLine
  split
  · split
    · exact setOffset_events
    · rfl
  · split
    · exact setOffset_events
    · rfl

/-- The tail is sound for the rows it has itself. -/
def Tail.RowsSound (parse : List UInt8 → Option Json) (t : Tail) : Prop :=
  t.Sound parse (HasRow t.events)

theorem rowsSound_processFile {t : Tail} (ht : t.RowsSound parse)
    (hok : p.FailuresCovered parse t) : (processFile parse p t).1.RowsSound parse := by
  unfold processFile
  split
  · exact ht
  rename_i hpurged
  split
  · rw [Tail.RowsSound, setOffset_events]
    exact sound_setOffset (fun _ => ht) fun _ => .reset
  rename_i hlen
  have hlines : p.lines t = admittedLines p 0 (bufferLines p t) := by
    rw [Pass.lines, if_neg (by simp [hpurged, hlen])]
  have hcons : Consecutive newline t.file t.committedOffset (p.lines t) := by
    obtain ⟨more, hmore⟩ := admittedLines_isPrefix p 0 (bufferLines p t)
    rw [hlines]
    exact Consecutive.of_append (hmore ▸ consecutive_bufferLines ht.toAtBoundary p)
  dsimp only
  rw [Tail.RowsSound, finishWalk_events]
  refine sound_finishWalk (ht.mono rfl rfl fun k hk => walkLines_keeps hk) hcons ?_ ?_ ?_
  · rw [walkLines_nextCommitted, hlines]
    rfl
  · intro hnil
    rw [← bufferLines_eq_nil_iff]
    by_contra hne
    exact admittedLines_ne_nil hne (hlines ▸ hnil)
  · intro hset line hmem hs
    have hcovered := hok.resolve_left (by simp [hset]) line hmem hs
    exact walkLines_stores (hlines ▸ hmem) hs hcovered

/-! ## Runs -/

/-- The transcript grows, or a pass goes over it. -/
inductive TailStep
  | append (bytes : List UInt8)
  | pass (p : Pass)

/-- The scan that precedes a pass saw the file at its present length or shorter. -/
def tailStep (parse : List UInt8 → Option Json) (t : Tail) : TailStep → Option Tail
  | .append bytes => some { t with file := t.file ++ bytes }
  | .pass p => if p.fileLen ≤ t.file.length then some (processFile parse p t).1 else none

/-- The side condition on the passes of a run. -/
def tailOk (parse : List UInt8 → Option Json) (t : Tail) : TailStep → Prop
  | .append _ => True
  | .pass p => p.FailuresCovered parse t

theorem rowsSound_preserved (parse : List UInt8 → Option Json) :
    Preserved (tailStep parse) (tailOk parse) (Tail.RowsSound parse) := by
  intro t step t' ht hok hstep
  cases step with
  | append bytes =>
      cases hstep
      exact ht.append bytes
  | pass p =>
      rw [tailStep] at hstep
      split at hstep
      · cases hstep
        exact rowsSound_processFile ht hok
      · cases hstep

/-- **No committed line is lost.** In every run of passes over a growing transcript, with any
failures, every accepted line below the committed offset has its row, as long as no pass
commits its offset over a failed insert of a line that has none. -/
theorem events_of_committed_lines (parse : List UInt8 → Option Json) (file : List UInt8) (t : Tail)
    (hrun : Run (tailStep parse) (tailOk parse) (.new file) t) : t.CommittedStored parse :=
  (hrun.invariant (rowsSound_preserved parse) (.new file)).stored

/-! ## A committed line without its row -/

/-- Reads the one payload of the sample transcript, `{}`. -/
def parseSample (cells : List UInt8) : Option Json :=
  if cells = [0x7B, 0x7D] then some (.obj []) else none

/-- One line, `{}` and its newline. -/
def sampleTranscript : List UInt8 := [0x7B, 0x7D, 0x0A]

/-- A pass over the sample transcript whose insert at `0` fails or not, like its
`set_offset`. -/
def samplePass (insertFails setOffsetFails : Bool) : Pass :=
  ⟨3, false, fun _ => false, fun offset => insertFails && offset == 0, setOffsetFails⟩

/-- The database is down for a whole pass and back for the next. -/
theorem events_of_committed_lines_retry :
    ∃ t, runList (tailStep parseSample) (.new sampleTranscript)
        [.pass (samplePass true true), .pass (samplePass false false)] = some t ∧
      t.committedOffset = 3 ∧ t.CommittedStored parseSample := by
  refine ⟨_, rfl, by decide, events_of_committed_lines parseSample sampleTranscript _ ?_⟩
  refine ((Run.refl _).snoc (a := .pass (samplePass true true)) (.inl rfl) rfl).snoc
    (a := .pass (samplePass false false)) (.inr ?_) rfl
  intro line _ _ hfails
  cases hfails

/-- The insert fails and the offset is committed over it. -/
theorem failed_insert_committed_over :
    ∃ t, Run (tailStep parseSample) anyStep (.new sampleTranscript) t ∧
      ¬ t.CommittedStored parseSample := by
  refine ⟨_, .of_runList [.pass (samplePass true false)] rfl, fun h => ?_⟩
  have hcells : ∀ i < 2, sampleTranscript[0 + i]? = ([0x7B, 0x7D] : List UInt8)[i]? := by decide
  have hline : IsLine newline sampleTranscript ⟨0, [0x7B, 0x7D]⟩ :=
    ⟨boundary_zero, hcells, rfl, by decide⟩
  have hrow := h _ ⟨hline, ⟨by decide, by decide⟩, by decide⟩ (by decide)
  exact absurd hrow (by unfold HasRow; decide)

end Sulion.Ingest
