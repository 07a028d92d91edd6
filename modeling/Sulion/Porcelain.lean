import Sulion.RepoState
import Sulion.Rust.SplitLines
import Sulion.Rust.Utf8

set_option autoImplicit false

/-! # Reading the output of git

`git status --porcelain=v1 -z` is a list of records, and an entry with a rename or a copy owns two
of them. `parse_porcelain` eats the second one after four codes only. After any other code it takes
the original path for an entry, and that entry may in turn eat the next one.

The numbers of the changes come from a second command with another format: there a path is quoted,
or part of a rename, or printed as it is, and `read_diff_stats` trims it.
-/

namespace Sulion.Porcelain

open Rust RepoState

/-! ## What git prints -/

/-- An entry of the status: two columns, the path, and where it was renamed or copied from. -/
structure Entry where
  x : Char
  y : Char
  path : String
  orig : Option String
  columns : ∀ c ∈ [x, y], c ≠ '\x00' ∧ c.toNat < 128
  orig_iff : orig.isSome ↔ x ∈ ['R', 'C'] ∨ y ∈ ['R', 'C']
  path_ne : path ≠ ""
  texts : ∀ text ∈ path :: orig.toList, '\x00' ∉ text.toList

def Entry.code (e : Entry) : String := String.ofList [e.x, e.y]

def Entry.dirty (e : Entry) : String × String := (e.path, e.code)

def Entry.records (e : Entry) : List (List UInt8) :=
  asBytes (e.code ++ " " ++ e.path) :: e.orig.toList.map asBytes

def porcelain (es : List Entry) : List UInt8 :=
  (es.flatMap Entry.records).flatMap fun record => record ++ [0]

/-- A line of `git diff HEAD --numstat`, with the text that stands for the path. Control characters
are escaped in it. -/
structure Change where
  path : String
  shown : String
  additions : Option Nat
  deletions : Option Nat
  escaped : ∀ c ∈ shown.toList, 32 ≤ c.toNat

/-- A binary file has no numbers. -/
def numText : Option Nat → String
  | some n => toString n
  | none => "-"

def Change.line (c : Change) : List Char :=
  ((numText c.additions).toList ++ '\t' :: (numText
    c.deletions).toList ++ '\t' :: c.shown.toList) ++
    ['\n']

def numstat (changes : List Change) : List UInt8 :=
  asBytes (String.ofList (changes.flatMap Change.line))

/-! ## The parsers -/

/-- A record of at least three bytes: its path and its code. -/
def entryOf (record : List UInt8) : String × String :=
  (fromUtf8Lossy (record.drop 3), (fromUtf8 (record.take 2)).getD "  ")

def add (status : GitStatus) (dirty : String × String) : GitStatus :=
  { status with
    uncommittedCount := status.uncommittedCount + 1
    untrackedCount := status.untrackedCount + if dirty.2 = "??" then 1 else 0
    dirtyByPath := status.dirtyByPath.insert dirty.1 dirty.2 }

/-- The codes after which the next record is discarded. -/
def eatsNext (code : String) : Bool := code ∈ ["R ", "RM", "C ", "CM"]

/-- The records that are left; the first one is discarded where `discard` is set. -/
def parseRecords : Bool → GitStatus → List (List UInt8) → GitStatus
  | _, status, [] => status
  | true, status, _ :: records => parseRecords false status records
  | false, status, record :: records =>
      if record.length < 3 then parseRecords false status records
      else
        let dirty := entryOf record
        parseRecords (eatsNext dirty.2) (add status dirty) records

def parsePorcelain (bytes : List UInt8) (status : GitStatus) : GitStatus :=
  parseRecords false status (bytes.splitOn 0)

/-- `GitStatus::default`. -/
def noStatus : GitStatus := ⟨none, none, 0, 0, none, ∅, ∅⟩

/-- `splitn(3, '\t')`; a part that is not there is empty. -/
def threeParts (line : String) : String × String × String :=
  match splitOnce line "\t" with
  | none => (line, "", "")
  | some (first, rest) =>
      match splitOnce rest "\t" with
      | none => (first, rest, "")
      | some (second, third) => (first, second, third)

/-- `str::parse::<usize>`. -/
def parseUsize (s : String) : Option Nat :=
  let value : Option Nat :=
    match s.toList with
    | '+' :: cs => digits cs
    | cs => digits cs
  value.filter fun n => decide (n < 2 ^ 64)

def readNumstatLine (stats : Table String DiffStat) (line : String) : Table String DiffStat :=
  let (additions, deletions, path) := threeParts line
  let path := trim path
  if path.isEmpty then stats
  else
    stats.insert (afterLast path '\t')
      ⟨(parseUsize additions).getD 0, (parseUsize deletions).getD 0⟩

/-- An untracked file counts with its lines. -/
def readUntracked (readToString : String → Option String) (stats : Table String DiffStat)
    (dirty : String × String) : Table String DiffStat :=
  if dirty.2 ≠ "??" ∨ dirty.1 ∈ stats then stats
  else stats.insert dirty.1
    ⟨((readToString dirty.1).map fun body => (strLines body).length).getD 0, 0⟩

def readDiffStats (out : List UInt8) (dirtyByPath : Table String String)
    (readToString : String → Option String) : Table String DiffStat :=
  dirtyByPath.toList.foldl (readUntracked readToString)
    ((strLines (fromUtf8Lossy out)).foldl readNumstatLine ∅)

/-! ## What the status should be -/

/-- The status has one dirty path for each entry. -/
structure Reports (es : List Entry) (status : GitStatus) : Prop where
  dirty : ∀ path code, status.dirtyByPath[path]? = some code ↔ ∃ e ∈ es, e.dirty = (path, code)
  uncommitted : status.uncommittedCount = es.length
  untracked : status.untrackedCount = es.countP fun e => e.code = "??"

/-- The original path that is taken for an entry. Where the entry's own record was eaten (`eaten`)
its code does not count. -/
def Entry.stray (eaten : Bool) (e : Entry) : Option (String × String) :=
  e.orig.bind fun orig =>
    if (eaten = false ∧ eatsNext e.code) ∨ (asBytes orig).length < 3 then none
    else some (entryOf (asBytes orig))

/-- The stray entry eats the record of the next one. -/
def Entry.strayEats (eaten : Bool) (e : Entry) : Bool := (e.stray eaten).any fun dirty =>
  eatsNext dirty.2

/-- The original paths that are taken for entries. -/
def strays : Bool → List Entry → List (String × String)
  | _, [] => []
  | eaten, e :: es => (e.stray eaten).toList ++ strays (e.strayEats eaten) es

/-- The entries that are taken for original paths. -/
def lost : Bool → List Entry → List (String × String)
  | _, [] => []
  | eaten, e :: es => (if eaten then [e.dirty] else []) ++ lost (e.strayEats eaten) es

variable {es : List Entry} {e : Entry} {status : GitStatus} {eaten : Bool}

/-! ## The records -/

theorem splitOn_records {records : List (List UInt8)} (h : ∀ record ∈ records, 0 ∉ record) :
    (records.flatMap fun record => record ++ [0]).splitOn 0 = records ++ [[]] := by
  induction records with
  | nil => rfl
  | cons record records ih =>
      have hrest := ih fun r hr => h r (List.mem_cons_of_mem _ hr)
      rw [List.flatMap_cons, List.append_assoc, List.singleton_append,
        List.splitOn_append_cons_self_of_not_mem (h record List.mem_cons_self), hrest]
      rfl

theorem Entry.zero_notMem_records (e : Entry) : ∀ record ∈ e.records, 0 ∉ record := by
  intro record hrecord
  rcases List.mem_cons.mp hrecord with rfl | horig
  · refine zero_notMem_asBytes ?_
    have hx := (e.columns e.x (by simp)).1
    have hy := (e.columns e.y (by simp)).1
    have hpath := e.texts e.path List.mem_cons_self
    simp [code, String.toList_append, hx.symm, hy.symm, hpath]
  · obtain ⟨orig, hmem, rfl⟩ := List.mem_map.mp horig
    exact zero_notMem_asBytes (e.texts orig (List.mem_cons_of_mem _ hmem))

theorem encode_ascii {c : Char} (h : c.toNat < 128) :
    String.utf8EncodeChar c = [UInt8.ofNat c.toNat] := by
  rw [String.utf8EncodeChar]
  exact if_pos (show c.val.toNat ≤ 127 from Nat.le_of_lt_succ h)

theorem asBytes_code (e : Entry) :
    asBytes e.code = [UInt8.ofNat e.x.toNat, UInt8.ofNat e.y.toNat] := by
  simp [asBytes, Entry.code, encode_ascii (e.columns e.x (by simp)).2,
    encode_ascii (e.columns e.y (by simp)).2]

theorem asBytes_record (e : Entry) :
    asBytes (e.code ++ " " ++ e.path) = asBytes e.code ++ [32] ++ asBytes e.path := by
  rw [asBytes_append, asBytes_append]
  rfl

theorem entryOf_record (e : Entry) : entryOf (asBytes (e.code ++ " " ++ e.path)) = e.dirty := by
  have hcode : (asBytes (e.code ++ " " ++ e.path)).take 2 = asBytes e.code := by
    rw [asBytes_record, asBytes_code]
    rfl
  have hpath : (asBytes (e.code ++ " " ++ e.path)).drop 3 = asBytes e.path := by
    rw [asBytes_record, asBytes_code]
    rfl
  rw [entryOf, hcode, hpath, fromUtf8Lossy_asBytes, fromUtf8_asBytes]
  rfl

/-- The codes that eat the next record are codes of renames and copies. -/
theorem Entry.isSome_of_eatsNext (e : Entry) (h : eatsNext e.code = true) : e.orig.isSome := by
  refine e.orig_iff.mpr (Or.inl ?_)
  have hfirst : ∀ text ∈ ["R ", "RM", "C ", "CM"], text.toList.head? ∈ [some 'R', some 'C'] := by
    decide
  have hx := hfirst e.code (of_decide_eq_true h)
  simpa [Entry.code] using hx

/-- The dirty paths in the order in which they are read. -/
def reading : Bool → List Entry → List (String × String)
  | _, [] => []
  | eaten, e :: es =>
      (if eaten then [] else [e.dirty]) ++ (e.stray eaten).toList ++ reading (e.strayEats eaten) es

/-- An original path that is not eaten is read like an entry, or it is too short. -/
theorem parse_orig (status : GitStatus) (records : List (List UInt8)) {orig : String}
    (horig : e.orig = some orig) (hread : ¬ (eaten = false ∧ eatsNext e.code)) :
    parseRecords false status (asBytes orig :: records) =
      parseRecords (e.strayEats eaten) ((e.stray eaten).toList.foldl add status) records := by
  have hstray : e.stray eaten =
      if (asBytes orig).length < 3 then none else some (entryOf (asBytes orig)) := by
    rw [Entry.stray, horig, Option.bind_some]
    simp only [hread, false_or]
  rw [parseRecords, Entry.strayEats, hstray]
  by_cases hshort : (asBytes orig).length < 3
  · simp only [if_pos hshort, Option.any_none, Option.toList_none, List.foldl_nil]
  · simp only [if_neg hshort, Option.any_some, Option.toList_some, List.foldl_cons, List.foldl_nil]

/-- The records of an entry: its own may have been eaten, and then the next one is an original path
or the entry after it. -/
theorem parse_records (status : GitStatus) (eaten : Bool) (e : Entry)
    (records : List (List UInt8)) :
    parseRecords eaten status (e.records ++ records) =
      parseRecords (e.strayEats eaten)
        (((if eaten then [] else [e.dirty]) ++ (e.stray eaten).toList).foldl add status)
        records := by
  have hcode : (entryOf (asBytes (e.code ++ " " ++ e.path))).2 = e.code := by
    rw [entryOf_record]
    rfl
  have hlength : ¬ (asBytes (e.code ++ " " ++ e.path)).length < 3 := by
    rw [asBytes_record, asBytes_code]
    simp
  rw [Entry.records, List.cons_append, List.foldl_append]
  cases horig : e.orig with
  | none =>
      have hnone : ∀ eaten, e.stray eaten = none := fun eaten => by rw [Entry.stray, horig]; rfl
      have heats : eatsNext e.code = false := by
        by_contra heats
        have hsome := e.isSome_of_eatsNext (by simpa using heats)
        rw [horig] at hsome
        cases hsome
      rw [Entry.strayEats, hnone]
      cases eaten with
      | true => rfl
      | false =>
          rw [parseRecords, if_neg hlength]
          dsimp only
          rw [hcode, heats, entryOf_record]
          rfl
  | some orig =>
      cases eaten with
      | true => exact parse_orig status records horig (by simp)
      | false =>
          rw [parseRecords, if_neg hlength]
          dsimp only
          rw [hcode, entryOf_record]
          by_cases heats : eatsNext e.code = true
          · have hstray : e.stray false = none := by
              rw [Entry.stray, horig]
              exact if_pos (Or.inl ⟨rfl, heats⟩)
            rw [heats, Entry.strayEats, hstray]
            rfl
          · rw [Bool.not_eq_true] at heats
            rw [heats]
            exact parse_orig _ records horig (by simp [heats])

theorem parse_entries (status : GitStatus) (eaten : Bool) (es : List Entry) :
    parseRecords eaten status (es.flatMap Entry.records ++ [[]]) =
      (reading eaten es).foldl add status := by
  induction es generalizing status eaten with
  | nil => cases eaten <;> rfl
  | cons e es ih =>
      rw [List.flatMap_cons, List.append_assoc, parse_records, ih, reading, ← List.foldl_append]

theorem parsePorcelain_porcelain (es : List Entry) (status : GitStatus) :
    parsePorcelain (porcelain es) status = (reading false es).foldl add status := by
  have hzero : ∀ record ∈ es.flatMap Entry.records, 0 ∉ record := by
    intro record hrecord
    obtain ⟨e, -, hrecord⟩ := List.mem_flatMap.mp hrecord
    exact e.zero_notMem_records record hrecord
  rw [parsePorcelain, porcelain, splitOn_records hzero, parse_entries]

/-! ## What is read -/

/-- An entry is read or lost, and what is read is an entry or a stray. -/
theorem reading_append_lost (eaten : Bool) (es : List Entry) :
    (reading eaten es ++ lost eaten es).Perm (es.map Entry.dirty ++ strays eaten es) := by
  refine List.perm_iff_count.mpr fun dirty => ?_
  induction es generalizing eaten with
  | nil => rfl
  | cons e es ih =>
      have hrest := ih (e.strayEats eaten)
      have hown : (if eaten then [] else [e.dirty]).count dirty +
          (if eaten then [e.dirty] else []).count dirty = [e.dirty].count dirty := by
        cases eaten <;> simp
      have hcons : ([e.dirty] ++ es.map Entry.dirty).count dirty =
          [e.dirty].count dirty + (es.map Entry.dirty).count dirty := List.count_append
      rw [List.singleton_append] at hcons
      simp only [reading, lost, strays, List.map_cons, List.count_append] at hrest ⊢
      omega

theorem reading_perm_iff :
    (reading false es).Perm (es.map Entry.dirty) ↔ (strays false es).Perm (lost false es) := by
  have hall := reading_append_lost false es
  constructor
  · intro h
    exact (List.perm_append_left_iff _).mp ((hall.symm.trans (h.append_right _)))
  · intro h
    exact (List.perm_append_right_iff _).mp (hall.trans (h.append_left _))

theorem foldl_insert (entries : List (String × String)) (t : Table String String) :
    entries.foldl (fun t dirty => t.insert dirty.1 dirty.2) t =
      Table.mergeList (fun _ code => code) t entries := by
  induction entries generalizing t with
  | nil => rfl
  | cons dirty entries ih =>
      rw [List.foldl_cons, ih, Table.mergeList, Table.mergeList, List.foldl_cons]
      congr 1
      refine Table.ext fun path => ?_
      rw [Table.lookup_insert, Std.ExtTreeMap.getElem?_alter]
      simp only [Std.LawfulEqCmp.compare_eq_iff_eq]
      split
      · cases t[dirty.1]? <;> rfl
      · rfl

theorem foldl_add (entries : List (String × String)) (status : GitStatus) :
    entries.foldl add status =
      { status with
        uncommittedCount := status.uncommittedCount + entries.length
        untrackedCount := status.untrackedCount + entries.countP (fun dirty => dirty.2 = "??")
        dirtyByPath :=
          entries.foldl (fun t dirty => t.insert dirty.1 dirty.2) status.dirtyByPath } := by
  induction entries generalizing status with
  | nil => rfl
  | cons dirty entries ih =>
      rw [List.foldl_cons, ih, List.foldl_cons, List.countP_cons, List.length_cons]
      simp only [add, decide_eq_true_eq, GitStatus.mk.injEq, true_and, and_true]
      omega

theorem dirtyByPath_foldl {entries : List (String × String)} (hdistinct : (entries.map (·.1)).Nodup)
    (path code : String) :
    (entries.foldl add noStatus).dirtyByPath[path]? = some code ↔ (path, code) ∈ entries := by
  rw [foldl_add]
  simp only [foldl_insert]
  have hpairwise : entries.Pairwise fun a b => a.1 ≠ b.1 := List.pairwise_map.mp hdistinct
  by_cases hpath : ∃ dirty ∈ entries, dirty.1 = path
  · obtain ⟨dirty, hmem, rfl⟩ := hpath
    rw [Table.lookup_mergeList_of_mem _ _ _ hpairwise hmem]
    constructor
    · intro h
      have hcode : dirty.2 = code := by simpa [noStatus] using h
      exact hcode ▸ hmem
    · intro h
      have hcode : dirty.2 = code :=
        congrArg (·.2) (List.inj_on_of_nodup_map hdistinct hmem h rfl)
      simp [noStatus, hcode]
  · push Not at hpath
    rw [Table.lookup_mergeList_of_not_mem _ _ _ _ hpath]
    constructor
    · intro h
      simp [noStatus] at h
    · intro h
      exact absurd rfl (hpath _ h)

/-- **The status is right where each entry is read once**, and nothing else. -/
theorem reports_iff {entries : List (String × String)} (hdistinct : (es.map Entry.path).Nodup) :
    Reports es (entries.foldl add noStatus) ↔ entries.Perm (es.map Entry.dirty) := by
  have hpaths : ((es.map Entry.dirty).map (·.1)) = es.map Entry.path := by
    rw [List.map_map]
    rfl
  constructor
  · intro h
    have hlength : entries.length = es.length := by
      have hcount := h.uncommitted
      rw [foldl_add] at hcount
      simpa [noStatus] using hcount
    -- each path of an entry is read, and there is no room for another one
    have hread : es.map Entry.path ⊆ entries.map (·.1) := by
      intro path hpath
      obtain ⟨e, he, rfl⟩ := List.mem_map.mp hpath
      by_contra hnot
      have hdirty := (h.dirty e.path e.code).mpr ⟨e, he, rfl⟩
      rw [foldl_add] at hdirty
      simp only [foldl_insert] at hdirty
      rw [Table.lookup_mergeList_of_not_mem] at hdirty
      · simp [noStatus] at hdirty
      · exact fun dirty hmem hsame => hnot (hsame ▸ List.mem_map_of_mem hmem)
    have hperm : (es.map Entry.path).Perm (entries.map (·.1)) :=
      (List.subperm_of_subset hdistinct hread).perm_of_length_le (by simp [hlength])
    have hnodup : (entries.map (·.1)).Nodup := hperm.nodup hdistinct
    have hsubset : entries ⊆ es.map Entry.dirty := by
      intro dirty hmem
      obtain ⟨e, he, hsame⟩ :=
        (h.dirty dirty.1 dirty.2).mp ((dirtyByPath_foldl hnodup _ _).mpr hmem)
      exact List.mem_map.mpr ⟨e, he, hsame⟩
    exact (List.subperm_of_subset hnodup.of_map hsubset).perm_of_length_le (by simp [hlength])
  · intro h
    have hnodup : (entries.map (·.1)).Nodup := (h.map _).nodup_iff.mpr (hpaths ▸ hdistinct)
    refine ⟨fun path code => ?_, ?_, ?_⟩
    · rw [dirtyByPath_foldl hnodup, h.mem_iff, List.mem_map]
    · rw [foldl_add]
      simp [noStatus, h.length_eq]
    · rw [foldl_add]
      simp only [noStatus, zero_add, h.countP_eq, List.countP_map]
      rfl

/-! ## The numbers of the changes -/

theorem splitOnceAt_tab {front back : List Char} (h : '\t' ∉ front) :
    splitOnceAt ['\t'] (front ++ '\t' :: back) = some (front, back) := by
  induction front with
  | nil => simp [splitOnceAt]
  | cons c front ih =>
      have hc : c ≠ '\t' := fun hc => h (hc ▸ List.mem_cons_self)
      have hrest := ih fun hmem => h (List.mem_cons_of_mem c hmem)
      rw [List.cons_append, splitOnceAt, if_neg (by simp [hc.symm]), hrest]
      rfl

theorem splitOnce_tab {front : String} (h : '\t' ∉ front.toList) (back : List Char) :
    splitOnce (String.ofList (front.toList ++ '\t' :: back)) "\t" =
      some (front, String.ofList back) := by
  have hsplit : splitOnceAt "\t".toList (String.ofList (front.toList ++ '\t' :: back)).toList =
      some (front.toList, back) := by
    have hchars : (String.ofList (front.toList ++ '\t' :: back)).toList =
        front.toList ++ '\t' :: back := String.toList_ofList
    rw [hchars]
    exact splitOnceAt_tab h
  rw [splitOnce, hsplit, Option.map_some]
  dsimp only
  rw [String.ofList_toList]

theorem threeParts_eq {first second third : String} (hfirst : '\t' ∉ first.toList)
    (hsecond : '\t' ∉ second.toList) :
    threeParts (String.ofList (first.toList ++ '\t' :: second.toList ++ '\t' :: third.toList)) =
      (first, second, third) := by
  rw [threeParts, List.append_assoc, List.cons_append, splitOnce_tab hfirst]
  dsimp only
  rw [splitOnce_tab hsecond, String.ofList_toList]

theorem mem_numText {n : Option Nat} {c : Char} (h : c ∈ (numText n).toList) :
    c = '-' ∨ c.isDigit = true := by
  cases n with
  | none => exact Or.inl (List.mem_singleton.mp h)
  | some n =>
      rw [numText, Nat.toString_eq_repr, Nat.toList_repr] at h
      exact Or.inr (Nat.isDigit_of_mem_toDigits (by decide) (by decide) h)

/-- A line of the numstat has its control characters in the known places only. -/
theorem Change.notMem_body (change : Change) {c : Char} (hc : c.toNat < 32) (htab : c ≠ '\t') :
    c ∉ (numText change.additions).toList ++ '\t' :: (numText change.deletions).toList ++
      '\t' :: change.shown.toList := by
  have hnum : ∀ n, c ∉ (numText n).toList := by
    intro n hmem
    rcases mem_numText hmem with rfl | hdigit
    · exact absurd hc (by decide)
    · exact absurd (Char.isDigit_iff_toNat.mp hdigit).1 (by have : '0'.toNat = 48 := rfl; omega)
  have hshown : c ∉ change.shown.toList := fun hmem => by
    have := change.escaped c hmem
    omega
  simp [hnum, htab, hshown]

theorem strLines_numstat (changes : List Change) :
    strLines (String.ofList (changes.flatMap Change.line)) =
      changes.map fun change => String.ofList ((numText change.additions).toList ++
        '\t' :: (numText change.deletions).toList ++ '\t' :: change.shown.toList) := by
  have hsplit : splitInclusive (changes.flatMap Change.line) = changes.map Change.line := by
    induction changes with
    | nil => rfl
    | cons change changes ih =>
        have hline : IsLine change.line := ⟨_, change.notMem_body (by decide) (by decide), rfl⟩
        rw [List.flatMap_cons, splitInclusive_cons_line hline, ih]
        rfl
  rw [strLines, String.toList_ofList, hsplit, List.map_map]
  refine List.map_congr_left fun change _ => congrArg String.ofList ?_
  have hreturn : '\r' ∉ (numText change.additions).toList ++
      '\t' :: (numText change.deletions).toList ++ '\t' :: change.shown.toList :=
    change.notMem_body (by decide) (by decide)
  rw [chomp, Change.line, if_pos List.getLast?_concat, List.dropLast_concat]
  exact if_neg fun hlast => hreturn (List.mem_of_getLast? hlast)

theorem afterLast_of_notMem {s : String} {c : Char} (h : c ∉ s.toList) : afterLast s c = s := by
  rcases eq_or_suffix_afterLast s c with heq | hsuffix
  · exact heq.symm
  · exact absurd (hsuffix.subset List.mem_cons_self) h

theorem mem_trim {s : String} {c : Char} (h : c ∈ (trim s).toList) : c ∈ s.toList := by
  rw [trim, String.toList_ofList, List.mem_reverse] at h
  have hback := List.mem_reverse.mp ((List.dropWhile_suffix _).subset h)
  exact (List.dropWhile_suffix _).subset hback

theorem mem_insert_iff (stats : Table String DiffStat) (key path : String) (diff : DiffStat) :
    path ∈ stats.insert key diff ↔ key = path ∨ path ∈ stats := by
  rw [Std.ExtTreeMap.mem_insert, Std.LawfulEqCmp.compare_eq_iff_eq]

/-- The path of a line is what stands for it, trimmed; an empty one is passed over. -/
theorem mem_foldl_readNumstat (changes : List Change) (stats : Table String DiffStat)
    {path : String} (hpath : path ≠ "") :
    path ∈ (changes.map fun change => String.ofList ((numText change.additions).toList ++
        '\t' :: (numText change.deletions).toList ++ '\t' :: change.shown.toList)).foldl
          readNumstatLine stats ↔
      path ∈ stats ∨ ∃ change ∈ changes, trim change.shown = path := by
  induction changes generalizing stats with
  | nil => simp
  | cons change changes ih =>
      have htab : ∀ {text : String}, (∀ c ∈ text.toList, c = '-' ∨ c.isDigit = true) →
          '\t' ∉ text.toList := by
        intro text htext hmem
        rcases htext _ hmem with h | h <;> exact absurd h (by decide)
      have hshown : '\t' ∉ (trim change.shown).toList := fun hmem =>
        absurd (change.escaped _ (mem_trim hmem)) (by decide)
      rw [List.map_cons, List.foldl_cons, ih, readNumstatLine,
        threeParts_eq (htab fun _ => mem_numText) (htab fun _ => mem_numText)]
      dsimp only
      rw [afterLast_of_notMem hshown]
      split
      · rename_i hempty
        have hne : trim change.shown ≠ path := fun h => hpath (by simpa [h] using hempty)
        simp [hne]
      · simp only [mem_insert_iff, List.mem_cons, exists_eq_or_imp, or_assoc, or_left_comm]

theorem mem_foldl_readUntracked (readToString : String → Option String)
    (entries : List (String × String)) (stats : Table String DiffStat) (path : String) :
    path ∈ entries.foldl (readUntracked readToString) stats ↔
      path ∈ stats ∨ (path, "??") ∈ entries := by
  induction entries generalizing stats with
  | nil => simp
  | cons dirty entries ih =>
      rw [List.foldl_cons, ih, readUntracked, List.mem_cons]
      obtain ⟨other, code⟩ := dirty
      dsimp only
      split
      · rename_i hkept
        rw [Prod.mk.injEq]
        constructor
        · tauto
        · rintro (h | ⟨rfl, rfl⟩ | h)
          · exact Or.inl h
          · exact Or.inl (hkept.resolve_left (by simp))
          · exact Or.inr h
      · rename_i hnew
        push Not at hnew
        simp only [mem_insert_iff, Prod.mk.injEq, hnew.1, and_true]
        tauto

theorem mem_readDiffStats (changes : List Change) (dirtyByPath : Table String String)
    (readToString : String → Option String) {path : String} (hpath : path ≠ "") :
    path ∈ readDiffStats (numstat changes) dirtyByPath readToString ↔
      (∃ change ∈ changes, trim change.shown = path) ∨ dirtyByPath[path]? = some "??" := by
  have htext : fromUtf8Lossy (numstat changes) = String.ofList (changes.flatMap Change.line) :=
    fromUtf8Lossy_asBytes _
  rw [readDiffStats, htext, strLines_numstat, mem_foldl_readUntracked,
    mem_foldl_readNumstat changes ∅ hpath, Std.ExtTreeMap.mem_toList_iff_getElem?_eq_some]
  simp only [Std.ExtTreeMap.not_mem_empty, false_or]

/-! ## Both outputs -/

/-- The status says what git reported, and no change of a dirty path is missed. -/
structure Recovers (es : List Entry) (changes : List Change)
    (readToString : String → Option String) : Prop where
  reports : Reports es (parsePorcelain (porcelain es) noStatus)
  numbered : ∀ change ∈ changes,
    change.path ∈ (parsePorcelain (porcelain es) noStatus).dirtyByPath →
      change.path ∈ readDiffStats (numstat changes)
        (parsePorcelain (porcelain es) noStatus).dirtyByPath readToString

/-- Where each original path has its code, or is shorter than a record, nothing is taken for
something else. -/
theorem strays_eq_nil (h : ∀ e ∈ es, ∀ orig, e.orig = some orig →
    eatsNext e.code ∨ (asBytes orig).length < 3) : strays false es = [] ∧ lost false es = [] := by
  induction es with
  | nil => exact ⟨rfl, rfl⟩
  | cons e es ih =>
      have hrest := ih fun e he => h e (List.mem_cons_of_mem _ he)
      have hstray : e.stray false = none := by
        rw [Entry.stray]
        cases horig : e.orig with
        | none => rfl
        | some orig =>
            rw [Option.bind_some]
            exact if_pos ((h e List.mem_cons_self orig horig).imp_left fun heats => ⟨rfl, heats⟩)
      rw [strays, lost, Entry.strayEats, hstray]
      exact hrest

theorem mem_dirtyByPath (h : Reports es status) {path : String} :
    path ∈ status.dirtyByPath ↔ ∃ e ∈ es, e.path = path := by
  rw [Std.ExtTreeMap.mem_iff_isSome_getElem?, Option.isSome_iff_exists]
  constructor
  · rintro ⟨code, hcode⟩
    obtain ⟨e, he, hdirty⟩ := (h.dirty path code).mp hcode
    exact ⟨e, he, (Prod.mk.inj hdirty).1⟩
  · rintro ⟨e, he, rfl⟩
    exact ⟨e.code, (h.dirty _ _).mpr ⟨e, he, rfl⟩⟩

/-- An entry whose path has no line of its own is numbered when it is untracked only. -/
theorem numbered_iff (h : Reports es status) (changes : List Change)
    (readToString : String → Option String) (hdistinct : (es.map Entry.path).Nodup) (he : e ∈ es) :
    e.path ∈ readDiffStats (numstat changes) status.dirtyByPath readToString ↔
      e.code = "??" ∨ ∃ change ∈ changes, trim change.shown = e.path := by
  rw [mem_readDiffStats _ _ _ e.path_ne, h.dirty, or_comm]
  refine or_congr_left ⟨fun ⟨other, hother, hdirty⟩ => ?_, fun hcode => ⟨e, he, hcode ▸ rfl⟩⟩
  obtain ⟨hpath, hcode⟩ := Prod.mk.inj hdirty
  exact List.inj_on_of_nodup_map hdistinct hother he hpath ▸ hcode

/-- **Git's output is recovered** exactly when the original paths that are taken for entries say the
same as the entries that are taken for original paths, and each dirty path with numbers, an
untracked one apart, is what git prints for one of the changes, less the whitespace around it. -/
theorem recovers_iff {changes : List Change} {readToString : String → Option String}
    (hdistinct : (es.map Entry.path).Nodup) :
    Recovers es changes readToString ↔
      (strays false es).Perm (lost false es) ∧
        ∀ change ∈ changes, ∀ e ∈ es, e.path = change.path →
          e.code = "??" ∨ ∃ other ∈ changes, trim other.shown = change.path := by
  have hreports : Reports es (parsePorcelain (porcelain es) noStatus) ↔
      (strays false es).Perm (lost false es) := by
    rw [parsePorcelain_porcelain, reports_iff hdistinct, reading_perm_iff]
  constructor
  · intro h
    refine ⟨hreports.mp h.reports, fun change hchange e he hpath => ?_⟩
    have hmem := h.numbered change hchange ((mem_dirtyByPath h.reports).mpr ⟨e, he, hpath⟩)
    rw [← hpath] at hmem ⊢
    exact (numbered_iff h.reports changes readToString hdistinct he).mp hmem
  · rintro ⟨haligned, hshown⟩
    have hall := hreports.mpr haligned
    refine ⟨hall, fun change hchange hmem => ?_⟩
    obtain ⟨e, he, hpath⟩ := (mem_dirtyByPath hall).mp hmem
    have hnumbered := hshown change hchange e he hpath
    rw [← hpath] at hnumbered ⊢
    exact (numbered_iff hall changes readToString hdistinct he).mpr hnumbered

section Examples

def renamed : Entry :=
  ⟨'R', 'M', "new.rs", some "old.rs", by simp, by decide, by decide, by decide⟩

def untracked : Entry := ⟨'?', '?', "a b.txt", none, by simp, by decide, by decide, by decide⟩

def modified : Entry := ⟨' ', 'M', "lib.rs", none, by simp, by decide, by decide, by decide⟩

/-- A rename that was deleted again in the working tree. -/
def renamedDeleted : Entry :=
  ⟨'R', 'D', "new.rs", some "old.rs", by simp, by decide, by decide, by decide⟩

/-- A path beyond ASCII, which is printed in quotes. -/
def accented : Entry := ⟨' ', 'M', "é.rs", none, by simp, by decide, by decide, by decide⟩

theorem recovers_iff_renamed :
    Recovers [renamed, untracked, modified] [⟨"lib.rs", "lib.rs", some 3, some 1, by simp⟩]
      fun _ => none := by
  refine (recovers_iff (by decide)).mpr ⟨?_, ?_⟩
  · have hnone : strays false [renamed, untracked, modified] = [] ∧
        lost false [renamed, untracked, modified] = [] := strays_eq_nil (by decide)
    rw [hnone.1, hnone.2]
  · decide

/-- The original path is one more dirty path, and the quoted path has no numbers. -/
theorem renamedDeleted_not_recovered :
    (parsePorcelain (porcelain [renamedDeleted]) noStatus).uncommittedCount = 2 ∧
      ¬ Recovers [renamedDeleted] [] (fun _ => none) ∧
      ¬ Recovers [accented] [⟨"é.rs", "\"\\303\\251.rs\"", some 3, some 1, by simp⟩]
        (fun _ => none) := by
  have hcount : (parsePorcelain (porcelain [renamedDeleted]) noStatus).uncommittedCount = 2 := by
    rw [parsePorcelain_porcelain, foldl_add]
    rfl
  refine ⟨hcount, fun h => ?_, fun h => ?_⟩
  · have hone := h.reports.uncommitted
    rw [hcount] at hone
    cases hone
  · have hmem := h.numbered _ (List.mem_singleton_self _)
      ((mem_dirtyByPath h.reports).mpr ⟨accented, List.mem_singleton_self _, rfl⟩)
    have hfound := (numbered_iff (e := accented) h.reports _ _ (by decide)
      (List.mem_singleton_self _)).mp hmem
    revert hfound
    decide

end Examples

end Sulion.Porcelain
