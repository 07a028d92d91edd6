import Sulion.Rust.Ints
import Sulion.Rust.Json
import Sulion.Rust.Path

set_option autoImplicit false

/-! # Positions of the language servers

The index counts lines and bytes from one, the servers count lines and UTF-16 units from zero.
`lsp_position` converts to the servers' count; the functions that read the answers of a server add
one to its numbers, and do not convert units to bytes. The two agree exactly on columns with only
ASCII characters before them.

How a URI names a file is the `url` package's matter, and a parameter here.
-/

namespace Sulion.CodeIntel

open Rust

/-! ## To the server -/

def byteLength (text : List Char) : Nat := (text.map Char.utf8Size).sum

def utf16Units (c : Char) : Nat := if c.toNat < 0x10000 then 1 else 2

/-- `encode_utf16().count()`. -/
def utf16Length (text : List Char) : Nat := (text.map utf16Units).sum

/-- The scan of `line_text`: the line it is in, and what it has of that line. -/
def lineTextFrom (targetLine : Nat) : Nat → List Char → List Char → Option (List Char)
  | line, text, [] => if line = targetLine then some text else none
  | line, text, c :: cs =>
      if line = targetLine ∧ c = '\n' then some text
      else if c = '\n' then lineTextFrom targetLine (line + 1) [] cs
      else lineTextFrom targetLine line (text ++ [c]) cs

def lineText (source : String) (targetLine : Nat) : Option (List Char) :=
  lineTextFrom targetLine 1 [] source.toList

/-- What comes before a byte offset, or before the last character boundary ahead of it. -/
def upToBoundary : Nat → List Char → List Char
  | _, [] => []
  | target, c :: cs =>
      if c.utf8Size ≤ target then c :: upToBoundary (target - c.utf8Size) cs else []

def utf16CharacterForOneBasedByteCol (source : String) (line col : Int) : Nat :=
  if line < 1 ∨ col < 1 then 0
  else
    match lineText source (asUsize line) with
    | none => (col - 1).toNat
    | some text =>
        let target := min (asUsize (col - 1)) (byteLength text)
        utf16Length (upToBoundary target text)

def lspPosition (source : String) (line col : Int) : Json :=
  .obj
    [("line", .int (max (line - 1) (-2147483648))),
      ("character", .int (utf16CharacterForOneBasedByteCol source line col))]

/-! ## From the server -/

structure RawLocation where
  uri : String
  startLine : Int
  startCol : Int
  endLine : Int
  endCol : Int
  deriving DecidableEq

structure LspLocation where
  path : String
  startLine : Int
  startCol : Int
  endLine : Int
  endCol : Int
  deriving DecidableEq

def oneBasedI32 (value : Json) : Int := asI32 (min (value.asI64.getD 0 + 1) i64Max)

def rawLocationFromRange (uri : String) (range : Json) : Option RawLocation := do
  let start ← range.get "start"
  let stop ← range.get "end"
  let startLine ← start.get "line"
  let startCol ← start.get "character"
  let endLine ← stop.get "line"
  let endCol ← stop.get "character"
  some
    { uri := uri
      startLine := oneBasedI32 startLine
      startCol := oneBasedI32 startCol
      endLine := oneBasedI32 endLine
      endCol := oneBasedI32 endCol }

/-- A location, or a location link with its selection range before its whole range. -/
def rawLocation (value : Json) : Option RawLocation :=
  match value.strAt "uri" with
  | some uri => (value.get "range").bind (rawLocationFromRange uri)
  | none =>
      match value.strAt "targetUri" with
      | some uri =>
          ((value.get "targetSelectionRange").or (value.get "targetRange")).bind
            (rawLocationFromRange uri)
      | none => none

def definitionLocations : Json → List RawLocation
  | .arr items => items.filterMap rawLocation
  | .obj fields => (rawLocation (.obj fields)).toList
  | _ => []

def referenceLocations (value : Json) : List RawLocation :=
  (value.asArray.getD []).filterMap rawLocation

/-- The order that locations are sorted by. -/
def LspLocation.le (a b : LspLocation) : Prop :=
  a.path < b.path ∨ a.path = b.path ∧
    (a.startLine < b.startLine ∨ a.startLine = b.startLine ∧
      (a.startCol < b.startCol ∨ a.startCol = b.startCol ∧
        (a.endLine < b.endLine ∨ a.endLine = b.endLine ∧ a.endCol ≤ b.endCol)))

instance : DecidableRel LspLocation.le := fun a b => by
  unfold LspLocation.le
  exact inferInstance

variable (toFilePath : String → Option Path)

/-- A location under the root, by its path from there. -/
def resolveLocation (root : Path) (location : RawLocation) : Option LspLocation := do
  let path ← toFilePath location.uri
  let relative ← path.stripBase root
  some
    { path := relative.text.map fun c => if c = '\\' then '/' else c
      startLine := location.startLine
      startCol := location.startCol
      endLine := location.endLine
      endCol := location.endCol }

def resolveLocations (root : Path) (locations : List RawLocation) : List LspLocation :=
  ((locations.filterMap (resolveLocation toFilePath root)).insertionSort LspLocation.le).destutter
    (· ≠ ·)

/-! ## Bytes and units -/

theorem byteLength_append (a b : List Char) :
    byteLength (a ++ b) = byteLength a + byteLength b := by
  simp [byteLength]

theorem byteLength_cons (c : Char) (text : List Char) :
    byteLength (c :: text) = c.utf8Size + byteLength text := by
  simp [byteLength]

theorem utf16Length_cons (c : Char) (text : List Char) :
    utf16Length (c :: text) = utf16Units c + utf16Length text := by
  simp [utf16Length]

/-- At a boundary nothing is rounded down. -/
theorem upToBoundary_append (before after : List Char) :
    upToBoundary (byteLength before) (before ++ after) = before := by
  induction before with
  | nil =>
      cases after with
      | nil => rfl
      | cons c cs =>
          have hsize : ¬ c.utf8Size ≤ 0 := by
            have := c.utf8Size_pos
            omega
          simp [byteLength, upToBoundary, hsize]
  | cons c before ih =>
      rw [byteLength_cons, List.cons_append, upToBoundary, if_pos (Nat.le_add_right _ _),
        Nat.add_sub_cancel_left, ih]

/-- A character takes no more UTF-16 units than bytes, and as many only when it is ASCII. -/
theorem utf16Units_le (c : Char) :
    utf16Units c ≤ c.utf8Size ∧ (utf16Units c = c.utf8Size ↔ c.toNat < 128) := by
  have hcode : c.toNat = c.val.toNat := rfl
  unfold utf16Units Char.utf8Size
  simp only [UInt32.le_iff_toNat_le, UInt32.toNat_ofNatLT]
  rw [hcode]
  split_ifs <;> omega

theorem utf16Length_le (text : List Char) :
    utf16Length text ≤ byteLength text ∧
      (utf16Length text = byteLength text ↔ ∀ c ∈ text, c.toNat < 128) := by
  induction text with
  | nil => simp [utf16Length, byteLength]
  | cons c text ih =>
      obtain ⟨hle, hiff⟩ := utf16Units_le c
      rw [utf16Length_cons, byteLength_cons, List.forall_mem_cons, ← hiff, ← ih.2]
      have := ih.1
      omega

/-! ## There and back -/

/-- A one-based line and byte column of a text, at a character boundary. -/
structure Place (source : String) where
  line : Int
  col : Int
  before : List Char
  after : List Char
  line_pos : 1 ≤ line
  line_fits : line ≤ i32Max
  col_fits : col ≤ i32Max
  onLine : lineText source line.toNat = some (before ++ after)
  boundary : col = byteLength before + 1

/-- Every character of the line before the place is ASCII. -/
def Place.AsciiBefore {source : String} (place : Place source) : Prop :=
  ∀ c ∈ place.before, c.toNat < 128

def Place.position {source : String} (place : Place source) : Json :=
  lspPosition source place.line place.col

/-- What a server answers when it finds one range of a file, sent in the client's own positions. -/
def answer {source : String} (uri : String) (start stop : Place source) : Json :=
  .obj
    [("uri", .str uri), ("range", .obj [("start", start.position), ("end", stop.position)])]

variable {toFilePath} {source : String} {uri : String} {root file relative : Path}

theorem Place.character_eq (place : Place source) :
    utf16CharacterForOneBasedByteCol source place.line place.col = utf16Length place.before := by
  obtain ⟨line, col, before, after, hline, hlfits, hcfits, honLine, hcol⟩ := place
  have hfits : asUsize (col - 1) = byteLength before := by
    rw [asUsize_of_fits (by omega) (by omega), hcol]
    omega
  have htarget : min (byteLength before) (byteLength (before ++ after)) = byteLength before := by
    rw [byteLength_append]
    omega
  simp only [utf16CharacterForOneBasedByteCol, if_neg (show ¬ (line < 1 ∨ col < 1) by omega),
    asUsize_of_fits (show 0 ≤ line by omega) hlfits, honLine, hfits, htarget,
    upToBoundary_append]

/-- Reading a number that a place has been given adds the one that was taken off. -/
theorem oneBasedI32_int {n : Int} (h0 : 0 ≤ n) (h : n + 1 ≤ i32Max) :
    oneBasedI32 (.int n) = n + 1 := by
  unfold i32Max at h
  have hread : (Json.int n).asI64 = some n :=
    if_pos ⟨by unfold i64Min; omega, by unfold i64Max; omega⟩
  rw [oneBasedI32, hread, Option.getD_some, min_eq_left (by unfold i64Max; omega)]
  exact asI32_of_fits (by omega) (by unfold i32Max; omega)

/-- The numbers of a range are read by their names. -/
theorem rawLocationFromRange_positions (a b c d : Json) :
    rawLocationFromRange uri (.obj
        [("start", .obj [("line", a), ("character", b)]),
          ("end", .obj [("line", c), ("character", d)])]) =
      some ⟨uri, oneBasedI32 a, oneBasedI32 b, oneBasedI32 c, oneBasedI32 d⟩ := by
  simp [rawLocationFromRange, Json.get, List.lookup_cons]

/-- What a range from one place to another is read back as. -/
theorem definitionLocations_answer (start stop : Place source) :
    definitionLocations (answer uri start stop) =
      [⟨uri, start.line, utf16Length start.before + 1, stop.line,
        utf16Length stop.before + 1⟩] := by
  have hlines (place : Place source) :
      oneBasedI32 (.int (max (place.line - 1) (-2147483648))) = place.line := by
    have hpos := place.line_pos
    have hfits := place.line_fits
    rw [max_eq_left (by omega), oneBasedI32_int (by omega) (by omega), sub_add_cancel]
  have hcols (place : Place source) :
      oneBasedI32 (.int (utf16CharacterForOneBasedByteCol source place.line place.col)) =
        utf16Length place.before + 1 := by
    have hle := (utf16Length_le place.before).1
    have hcol := place.boundary
    have hfits := place.col_fits
    rw [place.character_eq, oneBasedI32_int (by omega) (by omega)]
  have hread : definitionLocations (answer uri start stop) = (rawLocationFromRange uri
      (.obj [("start", start.position), ("end", stop.position)])).toList := by
    simp [definitionLocations, answer, rawLocation, Json.strAt, Json.get, List.lookup_cons, Json.asStr]
  rw [hread, Place.position, Place.position, lspPosition, lspPosition,
    rawLocationFromRange_positions, hlines start, hlines stop, hcols start, hcols stop,
    Option.toList_some]

/-- A reference is read as a definition is. -/
theorem referenceLocations_answer (start stop : Place source) :
    referenceLocations (.arr [answer uri start stop]) =
      definitionLocations (answer uri start stop) := by
  rw [referenceLocations, Json.asArray, Option.getD_some, List.filterMap_cons, answer,
    definitionLocations]
  cases rawLocation _ <;> rfl

theorem Place.col_eq_iff (place : Place source) :
    (utf16Length place.before : Int) + 1 = place.col ↔ place.AsciiBefore := by
  rw [AsciiBefore, ← (utf16Length_le place.before).2, place.boundary]
  omega

theorem resolveLocations_single {raw : RawLocation} {location : LspLocation}
    (h : resolveLocation toFilePath root raw = some location) :
    resolveLocations toFilePath root [raw] = [location] := by
  have hfound : [raw].filterMap (resolveLocation toFilePath root) = [location] := by simp [h]
  rw [resolveLocations, hfound, List.insertionSort_cons, List.insertionSort_nil,
    List.orderedInsert_nil]
  rfl

/-- **A range comes back from the server as it was sent exactly when only ASCII characters come
before its ends.** -/
theorem resolveLocations_places_iff (start stop : Place source) (hfile : toFilePath uri = some file)
    (hroot : file.stripBase root = some relative) :
    (∃ path, resolveLocations toFilePath root (definitionLocations (answer uri start stop)) =
        [⟨path, start.line, start.col, stop.line, stop.col⟩]) ↔
      start.AsciiBefore ∧ stop.AsciiBefore := by
  rw [definitionLocations_answer, ← start.col_eq_iff, ← stop.col_eq_iff,
    resolveLocations_single (by rw [resolveLocation, hfile, Option.bind_eq_bind, Option.bind_some,
      hroot, Option.bind_some])]
  simp only [List.cons.injEq, LspLocation.mk.injEq, and_true]
  constructor
  · rintro ⟨path, -, -, hstart, -, hstop⟩
    exact ⟨hstart, hstop⟩
  · rintro ⟨hstart, hstop⟩
    exact ⟨_, rfl, trivial, hstart, trivial, hstop⟩

/-- Behind a name with an `é`, ten bytes and nine units into its line. -/
def afterAccent : Place "let café = 1;\n" where
  line := 1
  col := 11
  before := "let café ".toList
  after := "= 1;".toList
  line_pos := by decide
  line_fits := by decide
  col_fits := by decide
  onLine := by decide +kernel
  boundary := by decide +kernel

/-- Below the root, with a file that `toFilePath` finds. -/
theorem resolveLocations_afterAccent :
    (∃ path, resolveLocations (fun _ => some ["", "repo", "a.ts"]) ["", "repo"]
        (definitionLocations (answer "file:///repo/a.ts" afterAccent afterAccent)) =
        [⟨path, afterAccent.line, afterAccent.col, afterAccent.line, afterAccent.col⟩]) ↔
      afterAccent.AsciiBefore ∧ afterAccent.AsciiBefore :=
  have hroot : Path.stripBase ["", "repo", "a.ts"] ["", "repo"] = some ["a.ts"] := by
    decide +kernel
  resolveLocations_places_iff afterAccent afterAccent rfl hroot

/-- Column 11 is sent as 9 units and read back as column 10. -/
theorem place_not_read_back : ¬ ∀ (toFilePath : String → Option Path) (uri : String)
    (root file relative : Path) (source : String) (start stop : Place source),
    toFilePath uri = some file → file.stripBase root = some relative →
      ∃ path, resolveLocations toFilePath root (definitionLocations (answer uri start stop)) =
        [⟨path, start.line, start.col, stop.line, stop.col⟩] := by
  intro h
  have hfile : Path.stripBase ["", "repo", "a.ts"] ["", "repo"] = some ["a.ts"] := by
    decide +kernel
  obtain ⟨path, hpath⟩ := h (fun _ => some ["", "repo", "a.ts"]) "file:///repo/a.ts" _ _ _ _
    afterAccent afterAccent rfl hfile
  rw [definitionLocations_answer, resolveLocations_single
    (by rw [resolveLocation, Option.bind_eq_bind, Option.bind_some, hfile, Option.bind_some])]
    at hpath
  have hcol := (LspLocation.mk.inj (List.cons.inj hpath).1).2.2.1
  exact absurd hcol (by decide +kernel)

end Sulion.CodeIntel
