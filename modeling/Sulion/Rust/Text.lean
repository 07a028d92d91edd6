import Mathlib.Tactic

set_option autoImplicit false

/-! # Strings as the source handles them

The methods of `str` that the modelled functions call, on the list of characters of a
string.
-/

namespace Sulion.Rust

/-- `char::is_whitespace`: the Unicode property `White_Space`. -/
def isWhitespace (c : Char) : Bool :=
  (0x09 ≤ c.toNat && c.toNat ≤ 0x0D) || c.toNat == 0x20 || c.toNat == 0x85 || c.toNat == 0xA0 ||
    c.toNat == 0x1680 || (0x2000 ≤ c.toNat && c.toNat ≤ 0x200A) || c.toNat == 0x2028 ||
    c.toNat == 0x2029 || c.toNat == 0x202F || c.toNat == 0x205F || c.toNat == 0x3000

/-- `str::trim`. -/
def trim (s : String) : String :=
  String.ofList ((s.toList.dropWhile isWhitespace).reverse.dropWhile isWhitespace).reverse

/-- `chars().take(n).collect()`. -/
def takeChars (s : String) (n : Nat) : String := String.ofList (s.toList.take n)

/-- `str::to_ascii_lowercase`. -/
def toAsciiLowercase (s : String) : String := String.ofList (s.toList.map Char.toLower)

/-- `str::starts_with`. -/
def startsWith (s start : String) : Bool := start.toList.isPrefixOf s.toList

/-- `str::contains`. -/
def containsText (s part : String) : Bool :=
  s.toList.tails.any fun rest => part.toList.isPrefixOf rest

/-- The number of a list of decimal digits. -/
def digits : List Char → Option Nat
  | [] => none
  | cs => cs.foldlM (fun n c => if c.isDigit then some (10 * n + (c.toNat - 48)) else none) 0

/-- `str::parse::<i32>`. -/
def parseI32 (s : String) : Option Int :=
  let value : Option Int :=
    match s.toList with
    | '-' :: cs => (digits cs).map fun n => -n
    | '+' :: cs => (digits cs).map fun n => n
    | cs => (digits cs).map fun n => n
  value.filter fun n => decide (-2 ^ 31 ≤ n ∧ n < 2 ^ 31)

/-- `str::trim_start`. -/
def trimStart (s : String) : String := String.ofList (s.toList.dropWhile isWhitespace)

/-- `str::trim_end`. -/
def trimEnd (s : String) : String :=
  String.ofList (s.toList.reverse.dropWhile isWhitespace).reverse

/-- `str::ends_with`. -/
def endsWith (s tail : String) : Bool := tail.toList.isSuffixOf s.toList

/-- `str::strip_prefix`. -/
def stripStart (s start : String) : Option String :=
  if start.toList.isPrefixOf s.toList then some (String.ofList (s.toList.drop start.length))
  else none

/-- The words of a list of characters; `word` holds the current word, reversed. -/
def wordsFrom (word : List Char) : List Char → List (List Char)
  | [] => if word.isEmpty then [] else [word.reverse]
  | c :: cs =>
      if isWhitespace c then
        if word.isEmpty then wordsFrom [] cs else word.reverse :: wordsFrom [] cs
      else wordsFrom (c :: word) cs

/-- `str::split_whitespace`. -/
def splitWhitespace (s : String) : List String := (wordsFrom [] s.toList).map String.ofList

/-- The pieces of a text between the occurrences of a character. -/
def piecesOf (c : Char) : List Char → List (List Char)
  | [] => [[]]
  | x :: xs =>
      if x = c then [] :: piecesOf c xs
      else
        match piecesOf c xs with
        | [] => [[x]]
        | piece :: pieces => (x :: piece) :: pieces

/-- `str::split` with a character. -/
def splitChar (s : String) (c : Char) : List String := (piecesOf c s.toList).map String.ofList

/-- `str::parse::<u8>`. -/
def parseU8 (s : String) : Option Nat :=
  let value : Option Nat :=
    match s.toList with
    | '+' :: cs => digits cs
    | cs => digits cs
  value.filter fun n => decide (n < 256)

/-- The pieces of a list of characters between the line feeds. -/
def linesOf : List Char → List (List Char)
  | [] => [[]]
  | c :: cs =>
      if c = '\n' then [] :: linesOf cs
      else
        match linesOf cs with
        | [] => [[c]]
        | line :: rest => (c :: line) :: rest

/-- The pieces of a list of characters between pairs of line feeds. -/
def paragraphsOf : List Char → List (List Char)
  | [] => [[]]
  | '\n' :: '\n' :: cs => [] :: paragraphsOf cs
  | c :: cs =>
      match paragraphsOf cs with
      | [] => [[c]]
      | part :: rest => (c :: part) :: rest

/-- `str::split("\n\n")`. -/
def splitParagraphs (s : String) : List String := (paragraphsOf s.toList).map String.ofList

/-- `str::split_once`, on lists of characters. -/
def splitOnceAt (sep : List Char) : List Char → Option (List Char × List Char)
  | [] => if sep.isEmpty then some ([], []) else none
  | c :: cs =>
      if sep.isPrefixOf (c :: cs) then some ([], (c :: cs).drop sep.length)
      else (splitOnceAt sep cs).map fun (before, after) => (c :: before, after)

/-- `str::split_once`. -/
def splitOnce (s sep : String) : Option (String × String) :=
  (splitOnceAt sep.toList s.toList).map fun (before, after) =>
    (String.ofList before, String.ofList after)

/-- `str::rsplit(c).next()`: what follows the last `c`. -/
def afterLast (s : String) (c : Char) : String :=
  String.ofList (s.toList.reverse.takeWhile (· ≠ c)).reverse

/-- What follows the last `c` is all of the string, or a suffix with `c` before it. -/
theorem eq_or_suffix_afterLast (s : String) (c : Char) :
    s = afterLast s c ∨ c :: (afterLast s c).toList <:+ s.toList := by
  have hsplit : s.toList.reverse.takeWhile (· ≠ c) ++ s.toList.reverse.dropWhile (· ≠ c) =
      s.toList.reverse := List.takeWhile_append_dropWhile
  cases hrest : s.toList.reverse.dropWhile (· ≠ c) with
  | nil =>
      rw [hrest, List.append_nil] at hsplit
      left
      unfold afterLast
      rw [hsplit, List.reverse_reverse, String.ofList_toList]
  | cons d rest =>
      have hd : d = c := by
        have hne : s.toList.reverse.dropWhile (· ≠ c) ≠ [] := by
          rw [hrest]
          exact List.cons_ne_nil d rest
        have hhead := List.head_dropWhile_not (fun x => decide (x ≠ c)) hne
        simp only [hrest, List.head_cons] at hhead
        simpa using hhead
      rw [hrest, hd] at hsplit
      right
      refine ⟨rest.reverse, ?_⟩
      have hchars := congrArg List.reverse hsplit
      unfold afterLast
      simpa using hchars

/-- `str::rsplit_once(c)`. -/
def rsplitOnce (s : String) (c : Char) : Option (String × String) :=
  if c ∈ s.toList then
    some (String.ofList ((s.toList.reverse.dropWhile (· ≠ c)).drop 1).reverse, afterLast s c)
  else none

/-- `str::trim_matches` with a predicate. -/
def trimMatches (s : String) (p : Char → Bool) : String :=
  String.ofList ((s.toList.dropWhile p).reverse.dropWhile p).reverse

/-- `lines().next()`: the first line without its terminator. -/
def firstLine (s : String) : Option String :=
  if s.toList.isEmpty then none
  else
    match splitOnceAt ['\n'] s.toList with
    | none => some s
    | some (line, _) =>
        some (String.ofList (if line.getLast? = some '\r' then line.dropLast else line))

end Sulion.Rust
