import Sulion.Ingest.ProcessFile

set_option autoImplicit false

/-! # Tailing a growing transcript

A tick scans the file for its length and then makes one pass over the bytes behind the
committed offset; the transcript may grow before, between and after the two. `Ticking` keeps,
beside the tail, what the last scan saw and which lines were handed to `insert_event` so far.

Without failures the lines handed over are exactly the accepted lines below the committed
offset, each once (`Delivered`), and a tick that sees a terminated line advances
(`processFile_advances`).
-/

namespace Sulion.Ingest

open Rust Lines Transition

/-! ## Ticks -/

/-- A tail under ticks, with the `(byte_offset, line)` pairs handed to `insert_event`. -/
structure Ticking where
  tail : Tail
  /-- The length the scan of the current tick saw. -/
  scanned : Option Nat
  handed : List (Nat × List UInt8)

def Ticking.new (file : List UInt8) : Ticking := ⟨.new file, none, []⟩

inductive TickStep
  | append (bytes : List UInt8)
  | scan
  | tick (purged : Bool) (timeOver : Nat → Bool)

/-- A pass none of whose statements fail. -/
def unfailing (fileLen : Nat) (purged : Bool) (timeOver : Nat → Bool) : Pass :=
  ⟨fileLen, purged, timeOver, fun _ => false, false⟩

def tickStep (parse : List UInt8 → Option Json) (s : Ticking) : TickStep → Option Ticking
  | .append bytes => some { s with tail := { s.tail with file := s.tail.file ++ bytes } }
  | .scan => some { s with scanned := some s.tail.file.length }
  | .tick purged timeOver =>
      s.scanned.map fun fileLen =>
        let p := unfailing fileLen purged timeOver
        { tail := (processFile parse p s.tail).1
          scanned := none
          handed := s.handed ++ (p.lines s.tail).map fun line => (line.start, line.cells) }

variable {parse : List UInt8 → Option Json} {p : Pass} {t : Tail} {s s' : Ticking}

/-! ## One pass -/

/-- The lines of a pass that is neither deferred nor a reset. -/
theorem Pass.lines_eq (hpurged : p.purged = false) (hlen : t.committedOffset ≤ p.fileLen) :
    p.lines t = admittedLines p 0 (bufferLines p t) := by
  rw [Pass.lines, if_neg]
  simp [hpurged, hlen]

theorem consecutive_lines (ht : t.AtBoundary) (p : Pass) :
    Consecutive newline t.file t.committedOffset (p.lines t) := by
  unfold Pass.lines
  split
  · trivial
  · obtain ⟨more, hmore⟩ := admittedLines_isPrefix p 0 (bufferLines p t)
    apply Consecutive.of_append
    rw [hmore]
    exact consecutive_bufferLines ht p

/-- A line handed over fits the read window. -/
theorem short_of_mem_lines {line : TranscriptLine} (h : line ∈ p.lines t) :
    line.cells.length < maxReadBytes := by
  unfold Pass.lines at h
  split at h
  · cases h
  · have hmem := (admittedLines_isPrefix p 0 (bufferLines p t)).subset h
    have hfits := length_of_mem_splitFrom hmem
    have hwindow : (readBuffer p t).length ≤ maxReadBytes := by
      rw [readBuffer, List.length_take]
      omega
    rw [List.length_nil] at hfits
    omega

/-- Where the end of a pass leaves the offset: where the walk came to, or, when it did not move
and the window is full, behind the next newline. -/
theorem finishWalk_committed {w : Walk} (hset : p.setOffsetFails = false) :
    (finishWalk p t w).1.committedOffset =
      if w.nextCommitted = t.committedOffset ∧ maxReadBytes ≤ (readBuffer p t).length then
        (nextLineBoundary t.file
          (t.committedOffset + (readBuffer p t).length)).getD t.committedOffset
      else w.nextCommitted := by
  unfold finishWalk
  split
  · unfold skipOversizedLine
    cases hresume : nextLineBoundary t.file (t.committedOffset + (readBuffer p t).length) with
    | none => rfl
    | some resume => simp [setOffset, hset, Tail.committedOffset]
  · split
    · simp [setOffset, hset, Tail.committedOffset]
    · rename_i hstays
      exact (not_ne_iff.mp hstays).symm

/-- The offset after an unfailing pass, from the lines handed over. -/
theorem processFile_committed (parse : List UInt8 → Option Json) (hset : p.setOffsetFails = false)
    (hpurged : p.purged = false)
    (hlen : t.committedOffset ≤ p.fileLen) (ht : t.AtBoundary) :
    (processFile parse p t).1.committedOffset =
      if p.lines t = [] ∧ maxReadBytes ≤ (readBuffer p t).length then
        (nextLineBoundary t.file
          (t.committedOffset + (readBuffer p t).length)).getD t.committedOffset
      else stopOf t.committedOffset (p.lines t) := by
  have hnext : (walkLines parse p t.events (.start t) (bufferLines p t)).2.nextCommitted =
      stopOf t.committedOffset (p.lines t) := by
    rw [walkLines_nextCommitted, Pass.lines_eq hpurged hlen]
    rfl
  have hstays : stopOf t.committedOffset (p.lines t) = t.committedOffset ↔ p.lines t = [] := by
    constructor
    · intro heq
      by_contra hne
      have := (consecutive_lines ht p).lt_stopOf hne
      omega
    · intro hnil
      rw [hnil]
      rfl
  rw [processFile, if_neg (by simp [hpurged]), if_neg (by omega)]
  refine (finishWalk_committed hset).trans ?_
  rw [hnext]
  exact if_congr (and_congr_left' hstays) rfl rfl

theorem processFile_file : (processFile parse p t).1.file = t.file := by
  have hset : ∀ (t : Tail) offset result, (setOffset p t offset result).1.file = t.file := by
    intro t offset result
    unfold setOffset
    split <;> rfl
  unfold processFile
  split
  · rfl
  split
  · exact hset _ _ _
  · unfold finishWalk skipOversizedLine
    dsimp only
    repeat' split
    all_goals first | exact hset _ _ _ | rfl

/-- **A pass that sees a terminated line advances.** -/
theorem processFile_advances (hset : p.setOffsetFails = false) (hpurged : p.purged = false)
    (hlen : t.committedOffset ≤ p.fileLen) (hfile : p.fileLen ≤ t.file.length) (ht : t.AtBoundary)
    {line : TranscriptLine} (hline : IsLine newline t.file line)
    (hstart : t.committedOffset ≤ line.start) (hseen : line.stop ≤ p.fileLen) :
    t.committedOffset < (processFile parse p t).1.committedOffset := by
  rw [processFile_committed parse hset hpurged hlen ht]
  unfold Line.stop at hseen
  split
  · rename_i hover
    -- The newline of the line lies behind the full window, so the scan finds one.
    obtain ⟨hnil, hfull⟩ := hover
    have hbuf : newline ∉ readBuffer p t := by
      rw [← bufferLines_eq_nil_iff]
      by_contra hne
      rw [Pass.lines_eq hpurged hlen] at hnil
      exact admittedLines_ne_nil hne hnil
    have hlength : (readBuffer p t).length ≤ p.fileLen - t.committedOffset := by
      rw [readBuffer, List.length_take]
      omega
    have hbehind :
        t.committedOffset + (readBuffer p t).length ≤ line.start + line.cells.length := by
      by_contra hin
      apply hbuf
      have hcell :
          (readBuffer p t)[line.start + line.cells.length - t.committedOffset]? = some newline := by
        rw [readBuffer, List.getElem?_take_of_lt, List.getElem?_drop]
        · rw [Nat.add_sub_cancel' (by omega)]
          exact hline.terminated
        · rw [readBuffer, List.length_take] at hin
          omega
      exact List.mem_of_getElem? hcell
    cases hresume : nextLineBoundary t.file (t.committedOffset + (readBuffer p t).length) with
    | none =>
        have hno := List.findIdx?_eq_none_iff.mp (Option.map_eq_none_iff.mp hresume)
        have hdrop : (t.file.drop (t.committedOffset + (readBuffer p t).length))[line.start +
            line.cells.length - (t.committedOffset + (readBuffer p t).length)]? = some newline := by
          rw [List.getElem?_drop, Nat.add_sub_cancel' hbehind]
          exact hline.terminated
        have := hno newline (List.mem_of_getElem? hdrop)
        simp at this
    | some resume =>
        have := (nextLineBoundary_eq_some hresume).1
        rw [Option.getD_some]
        omega
  · rename_i hnot
    apply (consecutive_lines ht p).lt_stopOf
    intro hnil
    apply hnot
    refine ⟨hnil, ?_⟩
    -- No line in the window: it would hold the newline of `line` if it were not full.
    by_contra hfull
    rw [Pass.lines_eq hpurged hlen] at hnil
    have hempty : bufferLines p t = [] := by
      by_contra hne
      exact admittedLines_ne_nil hne hnil
    rw [bufferLines_eq_nil_iff] at hempty
    apply hempty
    have hcell :
        (readBuffer p t)[line.start + line.cells.length - t.committedOffset]? = some newline := by
      rw [readBuffer, List.length_take, List.length_drop] at hfull
      rw [readBuffer, List.getElem?_take_of_lt (by omega), List.getElem?_drop,
        Nat.add_sub_cancel' (by omega)]
      exact hline.terminated
    exact List.mem_of_getElem? hcell

/-! ## Every run of ticks -/

/-- The committed offset is a line boundary that the scan has not fallen behind, and exactly
the accepted lines below it were handed over, in the order of the file. -/
structure Delivered (s : Ticking) : Prop where
  atBoundary : s.tail.AtBoundary
  scanned : ∀ fileLen ∈ s.scanned,
    s.tail.committedOffset ≤ fileLen ∧ fileLen ≤ s.tail.file.length
  increasing : s.handed.Pairwise fun a b => a.1 < b.1
  handed_iff : ∀ line : TranscriptLine, (line.start, line.cells) ∈ s.handed ↔
    IsLine newline s.tail.file line ∧ line.cells.length < maxReadBytes ∧
      line.stop ≤ s.tail.committedOffset

theorem delivered_new (file : List UInt8) : Delivered (.new file) where
  atBoundary := ⟨Nat.zero_le _, boundary_zero⟩
  scanned _ h := by cases h
  increasing := List.Pairwise.nil
  handed_iff line := by
    constructor
    · intro h
      cases h
    · rintro ⟨_, _, hstop⟩
      have : line.start + line.cells.length + 1 ≤ 0 := hstop
      omega

/-- The lines between two committed offsets are those of the pass, if they are short. -/
theorem mem_lines_iff (parse : List UInt8 → Option Json) (ht : t.AtBoundary)
    (hset : p.setOffsetFails = false) (hpurged : p.purged = false)
    (hlen : t.committedOffset ≤ p.fileLen) (line : TranscriptLine) :
    line ∈ p.lines t ↔ IsLine newline t.file line ∧ line.cells.length < maxReadBytes ∧
      t.committedOffset ≤ line.start ∧ line.stop ≤ (processFile parse p t).1.committedOffset := by
  have hcons := consecutive_lines ht p
  rw [processFile_committed parse hset hpurged hlen ht]
  constructor
  · intro hmem
    obtain ⟨hline, hstart, hstop⟩ := hcons.of_mem hmem
    refine ⟨hline, short_of_mem_lines hmem, hstart, ?_⟩
    rw [if_neg]
    · exact hstop
    · rintro ⟨hnil, _⟩
      rw [hnil] at hmem
      cases hmem
  · rintro ⟨hline, hshort, hstart, hstop⟩
    split at hstop
    · -- Only the line that is too long lies below the boundary the pass skips to.
      rename_i hover
      obtain ⟨hnil, hfull⟩ := hover
      exfalso
      cases hresume : nextLineBoundary t.file (t.committedOffset + (readBuffer p t).length) with
      | none =>
          rw [hresume, Option.getD_none] at hstop
          unfold Line.stop at hstop
          omega
      | some resume =>
          rw [hresume, Option.getD_some] at hstop
          have hbuf : newline ∉ readBuffer p t := by
            rw [← bufferLines_eq_nil_iff]
            by_contra hne
            rw [Pass.lines_eq hpurged hlen] at hnil
            exact admittedLines_ne_nil hne hnil
          exact oversized_line hbuf hfull hresume hline hstart hstop hshort
    · exact hcons.mem_of_isLine hline hstart hstop

/-- The committed offset after a pass is a boundary that is not before the old one. -/
theorem processFile_boundary (parse : List UInt8 → Option Json) (ht : t.AtBoundary)
    (hset : p.setOffsetFails = false) (hpurged : p.purged = false)
    (hlen : t.committedOffset ≤ p.fileLen) :
    (processFile parse p t).1.AtBoundary ∧
      t.committedOffset ≤ (processFile parse p t).1.committedOffset := by
  have hcons := consecutive_lines ht p
  have hcommitted := processFile_committed parse hset hpurged hlen ht
  split at hcommitted
  · cases hresume : nextLineBoundary t.file (t.committedOffset + (readBuffer p t).length) with
    | none =>
        rw [hresume, Option.getD_none] at hcommitted
        refine ⟨⟨?_, ?_⟩, hcommitted.ge⟩
        · rw [hcommitted, processFile_file]
          exact ht.le_length
        · rw [hcommitted, processFile_file]
          exact ht.boundary
    | some resume =>
        rw [hresume, Option.getD_some] at hcommitted
        obtain ⟨hbehind, hle, hsep, _⟩ := nextLineBoundary_eq_some hresume
        refine ⟨⟨?_, ?_⟩, by omega⟩
        · rw [hcommitted, processFile_file]
          exact hle
        · rw [hcommitted, processFile_file]
          intro q hq
          rwa [← hq, Nat.add_sub_cancel] at hsep
  · refine ⟨⟨?_, ?_⟩, ?_⟩
    · rw [hcommitted, processFile_file]
      exact hcons.stopOf_le ht.le_length
    · rw [hcommitted, processFile_file]
      exact hcons.boundary_stopOf ht.boundary
    · rw [hcommitted]
      exact hcons.le_stopOf

theorem processFile_purged (hpurged : p.purged = true) : (processFile parse p t).1 = t := by
  rw [processFile, if_pos hpurged]

/-- A step keeps the lines delivered, and the offset does not move back. -/
theorem delivered_step (h : Delivered s) {step : TickStep}
    (hstep : tickStep parse s step = some s') :
    Delivered s' ∧ s.tail.committedOffset ≤ s'.tail.committedOffset := by
  cases step with
  | append bytes =>
      cases hstep
      refine ⟨⟨⟨?_, boundary_append h.atBoundary.le_length h.atBoundary.boundary⟩, ?_,
        h.increasing, ?_⟩,
        le_refl _⟩
      · have := h.atBoundary.le_length
        change s.tail.committedOffset ≤ (s.tail.file ++ bytes).length
        rw [List.length_append]
        omega
      · intro fileLen hlen
        have := h.scanned fileLen hlen
        change s.tail.committedOffset ≤ fileLen ∧ fileLen ≤ (s.tail.file ++ bytes).length
        rw [List.length_append]
        omega
      · intro line
        refine (h.handed_iff line).trans ?_
        change IsLine newline s.tail.file line ∧ _ ∧ line.stop ≤ s.tail.committedOffset ↔
          IsLine newline (s.tail.file ++ bytes) line ∧ _ ∧ line.stop ≤ s.tail.committedOffset
        constructor
        · rintro ⟨hline, hshort, hstop⟩
          exact ⟨(isLine_append_iff (hstop.trans h.atBoundary.le_length)).mpr hline, hshort, hstop⟩
        · rintro ⟨hline, hshort, hstop⟩
          exact ⟨(isLine_append_iff (hstop.trans h.atBoundary.le_length)).mp hline, hshort, hstop⟩
  | scan =>
      cases hstep
      refine ⟨⟨h.atBoundary, ?_, h.increasing, h.handed_iff⟩, le_refl _⟩
      intro fileLen hlen
      cases hlen
      exact ⟨h.atBoundary.le_length, le_refl _⟩
  | tick purged timeOver =>
      obtain ⟨fileLen, hscanned, hs'⟩ := Option.map_eq_some_iff.mp hstep
      obtain ⟨hlen, _⟩ := h.scanned fileLen hscanned
      cases purged with
      | true =>
          have hlines : (unfailing fileLen true timeOver).lines s.tail = [] := if_pos (.inl rfl)
          have htail : (processFile parse (unfailing fileLen true timeOver) s.tail).1 = s.tail :=
            processFile_purged rfl
          simp only [hlines, htail, List.map_nil, List.append_nil] at hs'
          rw [← hs']
          exact ⟨⟨h.atBoundary, (by intro _ hnone; cases hnone), h.increasing, h.handed_iff⟩,
            le_refl _⟩
      | false =>
          subst hs'
          obtain ⟨hboundary, hle⟩ := processFile_boundary parse
            (p := unfailing fileLen false timeOver) h.atBoundary rfl rfl hlen
          have hmem := mem_lines_iff parse (p := unfailing fileLen false timeOver) h.atBoundary rfl
            rfl hlen
          have hpair : ∀ line : TranscriptLine,
              (line.start, line.cells) ∈ ((unfailing fileLen false timeOver).lines s.tail).map
                (fun line => (line.start, line.cells)) ↔
                  line ∈ (unfailing fileLen false timeOver).lines s.tail := by
            intro line
            constructor
            · intro hline
              obtain ⟨other, hother, heq⟩ := List.mem_map.mp hline
              obtain ⟨hstart, hcells⟩ := Prod.mk.inj heq
              cases line
              cases other
              cases hstart
              cases hcells
              exact hother
            · intro hline
              exact List.mem_map.mpr ⟨line, hline, rfl⟩
          refine ⟨⟨hboundary, (by intro _ hnone; cases hnone), ?_, ?_⟩, hle⟩
          · refine List.pairwise_append.mpr ⟨h.increasing, ?_, ?_⟩
            · exact List.pairwise_map.mpr (consecutive_lines h.atBoundary _).pairwise
            · intro a ha b hb
              obtain ⟨line, hline, rfl⟩ := List.mem_map.mp hb
              have hbelow := ((h.handed_iff ⟨a.1, a.2⟩).mp ha).2.2
              have hstart := ((hmem line).mp hline).2.2.1
              unfold Line.stop at hbelow
              simp only at hbelow ⊢
              omega
          · intro line
            rw [List.mem_append, hpair, hmem, h.handed_iff, processFile_file]
            constructor
            · rintro (⟨hline, hshort, hstop⟩ | ⟨hline, hshort, _, hstop⟩)
              · exact ⟨hline, hshort, hstop.trans hle⟩
              · exact ⟨hline, hshort, hstop⟩
            · rintro ⟨hline, hshort, hstop⟩
              by_cases hold : line.stop ≤ s.tail.committedOffset
              · exact .inl ⟨hline, hshort, hold⟩
              · exact .inr ⟨hline, hshort, h.atBoundary.le_start hline hold, hstop⟩

theorem delivered_preserved (parse : List UInt8 → Option Json) :
    Preserved (tickStep parse) anyStep Delivered :=
  fun _ _ _ h _ hstep => (delivered_step h hstep).1

/-- **Each complete line is delivered once, at its own offset.** In every run of ticks over a
growing transcript without failures: the committed offset is `0` or just past a newline; the
pairs handed to `insert_event` are, in the order of the file and without repetition, the
terminated lines below it that are shorter than the read window; no step moves it back; and a
tick on a session that is not purged advances it while its scan saw a terminated line behind
it. -/
theorem lines_delivered_once (parse : List UInt8 → Option Json) (file : List UInt8) (s : Ticking)
    (hrun : Run (tickStep parse) anyStep (.new file) s) :
    (s.tail.committedOffset = 0 ∨ s.tail.file[s.tail.committedOffset - 1]? = some newline) ∧
      s.handed.Pairwise (fun a b => a.1 < b.1) ∧
      (∀ line : TranscriptLine, (line.start, line.cells) ∈ s.handed ↔
        IsLine newline s.tail.file line ∧ line.cells.length < maxReadBytes ∧
          line.stop ≤ s.tail.committedOffset) ∧
      (∀ step s', tickStep parse s step = some s' →
        s.tail.committedOffset ≤ s'.tail.committedOffset) ∧
      (∀ timeOver s' fileLen line, s.scanned = some fileLen → IsLine newline s.tail.file line →
        s.tail.committedOffset ≤ line.start → line.stop ≤ fileLen →
        tickStep parse s (.tick false timeOver) = some s' →
          s.tail.committedOffset < s'.tail.committedOffset) := by
  have h : Delivered s := hrun.invariant (delivered_preserved parse) (delivered_new file)
  refine ⟨?_, h.increasing, h.handed_iff, fun step s' hstep => (delivered_step h hstep).2, ?_⟩
  · rcases Nat.eq_zero_or_pos s.tail.committedOffset with hzero | hpos
    · exact .inl hzero
    · exact .inr (h.atBoundary.boundary _ (by omega))
  · intro timeOver s' fileLen line hscanned hline hstart hseen hstep
    obtain ⟨len, hlen, rfl⟩ := Option.map_eq_some_iff.mp hstep
    obtain rfl : fileLen = len := Option.some.inj (hscanned.symm.trans hlen)
    obtain ⟨hbehind, hfile⟩ := h.scanned fileLen hscanned
    exact processFile_advances rfl rfl hbehind hfile h.atBoundary hline hstart hseen

/-- A line and the start of the next one. -/
theorem lines_delivered_once_partial :
    ∃ s, runList (tickStep parseSample) (.new sampleTranscript)
        [.append [0x7B], .scan, .append [0x7D], .tick false fun _ => false] = some s ∧
      s.tail.committedOffset = 3 ∧ s.handed = [(0, [0x7B, 0x7D])] ∧
      s.handed.Pairwise fun a b => a.1 < b.1 := by
  have hrun : ∃ s, runList (tickStep parseSample) (.new sampleTranscript)
      [.append [0x7B], .scan, .append [0x7D], .tick false fun _ => false] = some s ∧
        s.tail.committedOffset = 3 ∧ s.handed = [(0, [0x7B, 0x7D])] :=
          ⟨_, rfl, by decide, by decide⟩
  obtain ⟨s, hs, hcommitted, hhanded⟩ := hrun
  exact ⟨s, hs, hcommitted, hhanded,
    (lines_delivered_once parseSample sampleTranscript s (.of_runList _ hs)).2.1⟩

end Sulion.Ingest
