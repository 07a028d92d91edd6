import Sulion.Js.TextDecoder
import Sulion.Lib.LineScan
import Sulion.Rust.Json

set_option autoImplicit false

/-! # Reading a turn's stream

`consumeTurnStream` of `api/turnStream.ts`: bytes come in reads of any size, are decoded as they
come, and each finished line that is not blank is a JSON record. The reading ends with the first
`complete` or `reset` record, or fails. The caller does not abort here, and takes every record.

`consume_exact` says what is delivered, in terms of the bytes alone.
-/

namespace Sulion.Frontend

open Rust Js LineScan

/-- Why a reading fails. -/
inductive Failure
  /-- A line is not JSON. -/
  | syntaxError
  /-- `record.kind` of a JSON null. -/
  | typeError
  /-- The server's `error` record. -/
  | server (record : Json)
  /-- The stream has ended. -/
  | interrupted

/-- How the handling of lines stops. -/
inductive Stop
  | finished (delivered : List Json)
  | failed (delivered : List Json) (why : Failure)

/-- What `String.prototype.trim` removes. -/
def isJsSpace (c : Char) : Bool :=
  (0x09 ≤ c.toNat && c.toNat ≤ 0x0D) || c.toNat == 0x20 || c.toNat == 0xA0 ||
    c.toNat == 0x1680 || (0x2000 ≤ c.toNat && c.toNat ≤ 0x200A) || c.toNat == 0x2028 ||
    c.toNat == 0x2029 || c.toNat == 0x202F || c.toNat == 0x205F || c.toNat == 0x3000 ||
    c.toNat == 0xFEFF

def isBlank (line : List Char) : Bool := line.all isJsSpace

/-- `record.kind`, where it is a string. -/
def kind (record : Json) : Option String := record.strAt "kind"

def isFinal (record : Json) : Bool := kind record == some "complete" || kind record == some "reset"

/-- One line: the records delivered with it, or how the reading stops at it. -/
def handleLine (parse : String → Option Json) (delivered : List Json) (line : List Char) :
    Except Stop (List Json) :=
  if isBlank line then .ok delivered
  else
    match parse (String.ofList line) with
    | none => .error (.failed delivered .syntaxError)
    | some .null => .error (.failed delivered .typeError)
    | some record =>
        if kind record = some "error" then .error (.failed delivered (.server record))
        else if isFinal record then .error (.finished (delivered ++ [record]))
        else .ok (delivered ++ [record])

/-- The variables of the loop over the reads. -/
structure Reader where
  decoder : TextDecoder
  pending : List Char
  delivered : List Json

/-- The rest of the loop; at the end of the reads the decoder gives what it has kept. -/
def Reader.consume (parse : String → Option Json) (r : Reader) : List (List UInt8) → Stop
  | [] =>
      match scan '\n' (handleLine parse) r.delivered [] (r.pending ++ r.decoder.finish) with
      | .error stop => stop
      | .ok (delivered, _) => .failed delivered .interrupted
  | value :: reads =>
      match scan '\n' (handleLine parse) r.delivered []
        (r.pending ++ (r.decoder.decode value).2) with
      | .error stop => stop
      | .ok (delivered, pending) =>
          Reader.consume parse ⟨(r.decoder.decode value).1, pending, delivered⟩ reads

/-- `consumeTurnStream`. -/
def consumeTurnStream (parse : String → Option Json) (reads : List (List UInt8)) : Stop :=
  Reader.consume parse ⟨.new, [], []⟩ reads

/-! ## The bytes decide -/

section Bytes

variable {parse : String → Option Json} {reads : List (List UInt8)}

/-- How the reading stops, given how the lines were left. -/
def stopOf : Except Stop (List Json) → Stop
  | .error stop => stop
  | .ok delivered => .failed delivered .interrupted

/-- The text of a stream from the decoder's state on. -/
def textFrom (d : TextDecoder) (bytes : List UInt8) : List Char :=
  (d.decode bytes).2 ++ (d.decode bytes).1.finish

/-- **The reads of a stream do not matter**, only its text does. -/
theorem consume_eq (r : Reader) (hpending : '\n' ∉ r.pending) :
    r.consume parse reads = stopOf ((finished '\n' [] (r.pending ++
      textFrom r.decoder reads.flatten)).foldlM (handleLine parse) r.delivered) := by
  induction reads generalizing r with
  | nil =>
      have hempty : textFrom r.decoder [] = r.decoder.finish := by
        unfold textFrom TextDecoder.decode Utf8.feed dropBom TextDecoder.finish
        cases r.decoder.bomSeen <;> simp [dropBom]
      rw [List.flatten_nil, hempty, ← scan_lines, Reader.consume]
      cases scan '\n' (handleLine parse) r.delivered [] (r.pending ++ r.decoder.finish) <;> rfl
  | cons value reads ih =>
      have htext : textFrom r.decoder (value :: reads).flatten =
          (r.decoder.decode value).2 ++ textFrom (r.decoder.decode value).1 reads.flatten := by
        unfold textFrom
        rw [List.flatten_cons, TextDecoder.decode_append, List.append_assoc]
      rw [htext, ← List.append_assoc, ← scan_lines, scan_append, Reader.consume]
      cases hscan : scan '\n' (handleLine parse) r.delivered []
          (r.pending ++ (r.decoder.decode value).2) with
      | error stop => rfl
      | ok result =>
          have hrest := notMem_of_scan List.not_mem_nil hscan
          dsimp only
          rw [ih _ hrest, ← scan_lines, scan_append, scan_of_notMem _ _ hrest]
          rfl

end Bytes

/-! ## What is delivered -/

/-- The finished lines of a stream that are not blank. -/
def recordLines (bytes : List UInt8) : List (List Char) :=
  (finished '\n' [] (textFrom .new bytes)).filter fun line => !isBlank line

/-- The record of a line, unless it is the server's error or a JSON null. -/
def lineRecord (parse : String → Option Json) (line : List Char) : Option Json :=
  match parse (String.ofList line) with
  | none | some .null => none
  | some record => if kind record = some "error" then none else some record

/-- The records up to the first line without one. -/
def records (parse : String → Option Json) (lines : List (List Char)) : List Json :=
  ((lines.map (lineRecord parse)).takeWhile Option.isSome).reduceOption

/-- The records up to and including the first final one. -/
def upToFinal (records : List Json) : List Json := records.take (records.findIdx isFinal + 1)

def Stop.delivered : Stop → List Json
  | .finished delivered | .failed delivered _ => delivered

def Stop.succeeds : Stop → Bool
  | .finished _ => true
  | .failed _ _ => false

section Delivered

variable {parse : String → Option Json} {line : List Char} {lines : List (List Char)}

theorem records_cons_none (h : lineRecord parse line = none) :
    records parse (line :: lines) = [] := by
  rw [records, List.map_cons, h]
  rfl

theorem records_cons_some {record : Json} (h : lineRecord parse line = some record) :
    records parse (line :: lines) = record :: records parse lines := by
  rw [records, List.map_cons, h]
  rfl

variable (parse) in
/-- One line, by its record. -/
theorem handleLine_eq (delivered : List Json) (hblank : isBlank line = false) :
    match lineRecord parse line with
    | none => ∃ why, handleLine parse delivered line = .error (.failed delivered why)
    | some record => handleLine parse delivered line =
        if isFinal record then .error (.finished (delivered ++ [record]))
        else .ok (delivered ++ [record]) := by
  unfold handleLine lineRecord
  rw [hblank, if_neg (by decide)]
  cases hparse : parse (String.ofList line) with
  | none => exact ⟨_, rfl⟩
  | some record =>
      cases record with
      | null => exact ⟨_, rfl⟩
      | bool b => rfl
      | int n => rfl
      | float literal => rfl
      | str s => rfl
      | arr items => rfl
      | obj fields =>
          dsimp only
          by_cases herror : kind (.obj fields) = some "error"
          · rw [if_pos herror, if_pos herror]
            exact ⟨_, rfl⟩
          · rw [if_neg herror, if_neg herror]

variable (parse) in
/-- The lines in order, by their records. -/
theorem handle_lines (delivered : List Json) (hblank : ∀ line ∈ lines, isBlank line = false) :
    (stopOf (lines.foldlM (handleLine parse) delivered)).delivered =
      delivered ++ upToFinal (records parse lines) ∧
    ((stopOf (lines.foldlM (handleLine parse) delivered)).succeeds = true ↔
      ∃ record ∈ records parse lines, isFinal record = true) := by
  induction lines generalizing delivered with
  | nil =>
      refine ⟨(List.append_nil delivered).symm, ?_⟩
      constructor
      · nofun
      · rintro ⟨record, hrecord, -⟩
        cases hrecord
  | cons line lines ih =>
      have hline := handleLine_eq parse delivered (hblank line List.mem_cons_self)
      rw [List.foldlM_cons]
      cases hrecord : lineRecord parse line with
      | none =>
          rw [hrecord] at hline
          obtain ⟨why, hwhy⟩ := hline
          rw [hwhy, records_cons_none hrecord]
          refine ⟨(List.append_nil delivered).symm, ?_⟩
          constructor
          · nofun
          · rintro ⟨record, hmem, -⟩
            cases hmem
      | some record =>
          rw [hrecord] at hline
          dsimp only at hline
          rw [records_cons_some hrecord, upToFinal, List.findIdx_cons]
          cases hfinal : isFinal record with
          | true =>
              rw [hfinal, if_pos rfl] at hline
              rw [hline]
              refine ⟨rfl, ?_⟩
              exact iff_of_true rfl ⟨record, List.mem_cons_self, hfinal⟩
          | false =>
              rw [hfinal, if_neg (by decide)] at hline
              rw [hline]
              obtain ⟨hdelivered, hsucceeds⟩ := ih (delivered ++ [record]) fun line hline =>
                hblank line (List.mem_cons_of_mem _ hline)
              refine ⟨hdelivered.trans ?_, hsucceeds.trans ?_⟩
              · rw [List.append_assoc, List.singleton_append]
                rfl
              · constructor
                · rintro ⟨r, hr, hfin⟩
                  exact ⟨r, List.mem_cons_of_mem _ hr, hfin⟩
                · rintro ⟨r, hr, hfin⟩
                  rcases List.mem_cons.mp hr with rfl | hr
                  · rw [hfinal] at hfin
                    cases hfin
                  · exact ⟨r, hr, hfin⟩

/-- Blank lines are passed over. -/
theorem foldlM_filter_blank (delivered : List Json) (lines : List (List Char)) :
    lines.foldlM (handleLine parse) delivered =
      (lines.filter fun line => !isBlank line).foldlM (handleLine parse) delivered := by
  induction lines generalizing delivered with
  | nil => rfl
  | cons line lines ih =>
      cases hblank : isBlank line with
      | true =>
          rw [List.filter_cons_of_neg (by simp [hblank]), List.foldlM_cons, handleLine, hblank,
            if_pos rfl]
          exact ih delivered
      | false =>
          rw [List.filter_cons_of_pos (by simp [hblank]), List.foldlM_cons, List.foldlM_cons]
          refine congrArg _ (funext fun delivered => ?_)
          exact ih delivered

end Delivered

/-- **The records are delivered, however the bytes come.** What is delivered are the records of
the finished lines up to the first final one, or up to the first line that is no record; the
reading succeeds if and only if a final record comes before every such line and the end. -/
theorem consume_exact (parse : String → Option Json) (reads : List (List UInt8)) :
    (consumeTurnStream parse reads).delivered =
      upToFinal (records parse (recordLines reads.flatten)) ∧
    ((consumeTurnStream parse reads).succeeds = true ↔
      ∃ record ∈ records parse (recordLines reads.flatten), isFinal record = true) ∧
    ∀ reads', reads'.flatten = reads.flatten →
      consumeTurnStream parse reads' = consumeTurnStream parse reads := by
  have hconsume (reads : List (List UInt8)) : consumeTurnStream parse reads =
      stopOf ((recordLines reads.flatten).foldlM (handleLine parse) []) := by
    unfold consumeTurnStream recordLines
    rw [consume_eq _ List.not_mem_nil, foldlM_filter_blank]
    rfl
  have hblank : ∀ line ∈ recordLines reads.flatten, isBlank line = false := by
    intro line hline
    simpa using (List.mem_filter.mp hline).2
  obtain ⟨hdelivered, hsucceeds⟩ := handle_lines parse [] hblank
  rw [hconsume]
  refine ⟨hdelivered, hsucceeds, fun reads' hreads => ?_⟩
  rw [hconsume, hreads]

/-- The record of a kind, as text. -/
def sampleText (kind : String) : String := "\x7b\"kind\":\"" ++ kind ++ "\"\x7d"

/-- `JSON.parse` on the two sample records. -/
def sampleParse (text : String) : Option Json :=
  if text = sampleText "error" then some (.obj [("kind", .str "error")])
  else if text = sampleText "complete" then some (.obj [("kind", .str "complete")])
  else none

/-- An `error` record and a `complete` record, one byte a read. -/
def sampleReads : List (List UInt8) :=
  (sampleText "error" ++ "\n" ++ sampleText "complete" ++ "\n").toList.map fun c =>
    [UInt8.ofNat c.toNat]

/-- The bytes in one read give what they give one by one. -/
theorem consume_exact_sample : consumeTurnStream sampleParse [sampleReads.flatten] =
    consumeTurnStream sampleParse sampleReads :=
  (consume_exact sampleParse sampleReads).2.2 _ List.flatten_singleton

/-- An error record fails the reading, though every line is JSON and a final record follows. -/
theorem error_record_fails : ¬ ∀ parse reads, (consumeTurnStream parse reads).succeeds = false ↔
    (∀ line ∈ recordLines reads.flatten, (parse (String.ofList line)).any isFinal = false) ∨
    ∃ line ∈ recordLines reads.flatten, (parse (String.ofList line)).isNone = true := by
  intro hall
  have hfails : (consumeTurnStream sampleParse sampleReads).succeeds = false := by decide +kernel
  rcases (hall sampleParse sampleReads).mp hfails with hnone | hsyntax
  · exact absurd hnone (by decide +kernel)
  · exact absurd hsyntax (by decide +kernel)

end Sulion.Frontend
