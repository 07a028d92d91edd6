import Sulion.Rust.Text

set_option autoImplicit false

/-! # JavaScript literals

`decode_string` and `decode_template` of `ingest/canonical/code_mode.rs`, which take the text of
a literal from the parse tree. A slice that is out of range, or not between characters, panics;
that is the outer `none` of a result, and the inner one means that the literal has no value.

NUL characters, which the database cannot store, are removed. The decoding is total on every
text but a lone quote and a lone backtick.
-/

namespace Sulion.Ingest.CodeMode

open Rust

/-! ## Slices -/

/-- The number of bytes of a text. -/
def byteLen (text : List Char) : Nat := (text.map Char.utf8Size).sum

/-- What follows the first `n` bytes. -/
def dropBytes : Nat → List Char → Option (List Char)
  | 0, text => some text
  | _ + 1, [] => none
  | n + 1, c :: text => if c.utf8Size ≤ n + 1 then dropBytes (n + 1 - c.utf8Size) text else none

/-- The first `n` bytes. -/
def takeBytes : Nat → List Char → Option (List Char)
  | 0, _ => some []
  | _ + 1, [] => none
  | n + 1, c :: text =>
      if c.utf8Size ≤ n + 1 then (takeBytes (n + 1 - c.utf8Size) text).map (c :: ·) else none

/-- `&text[start..stop]`. -/
def slice (text : List Char) (start stop : Nat) : Option (List Char) :=
  if stop < start then none else (dropBytes start text).bind (takeBytes (stop - start))

/-! ## Decoding -/

def stripNul (value : String) : String := String.ofList (value.toList.filter (· ≠ '\x00'))

/-- `decode_single_quoted`. -/
def decodeSingleQuoted : List Char → List Char
  | [] => []
  | ['\\'] => ['\\']
  | '\\' :: next :: rest =>
      (match next with
        | 'n' => ['\n']
        | 'r' => ['\r']
        | 't' => ['\t']
        | '\'' => ['\'']
        | '\\' => ['\\']
        | other => ['\\', other]) ++ decodeSingleQuoted rest
  | current :: rest => current :: decodeSingleQuoted rest

/-- `decode_string`; `fromStr` is `serde_json::from_str::<String>`. -/
def decodeString (fromStr : String → Option String) (raw : String) : Option (Option String) :=
  if startsWith raw "\"" then some ((fromStr raw).map stripNul)
  else if startsWith raw "'" && endsWith raw "'" then
    (slice raw.toList 1 (byteLen raw.toList - 1)).map fun body =>
      some (stripNul (String.ofList (decodeSingleQuoted body)))
  else some none

/-- `decode_template`. -/
def decodeTemplate (raw : String) : Option (Option String) :=
  if !startsWith raw "`" || !endsWith raw "`" || containsText raw "$\x7b" then some none
  else
    (slice raw.toList 1 (byteLen raw.toList - 1)).map fun body =>
      some (stripNul (String.ofList body))

/-! ## Escaping -/

def escapeChar (c : Char) : List Char :=
  if c = '\n' then ['\\', 'n']
  else if c = '\r' then ['\\', 'r']
  else if c = '\t' then ['\\', 't']
  else if c = '\'' then ['\\', '\'']
  else if c = '\\' then ['\\', '\\']
  else [c]

/-- The single-quoted literal of a text. -/
def singleQuoted (s : String) : String :=
  String.ofList ('\'' :: s.toList.flatMap escapeChar ++ ['\''])

/-! ## The slices are in range -/

section Slices

variable {text body : List Char} {q : Char}

theorem takeBytes_append (body rest : List Char) :
    takeBytes (byteLen body) (body ++ rest) = some body := by
  induction body with
  | nil => simp [byteLen, takeBytes]
  | cons c body ih =>
      have hlen : byteLen (c :: body) = c.utf8Size - 1 + byteLen body + 1 := by
        have hpos := c.utf8Size_pos
        simp only [byteLen, List.map_cons, List.sum_cons]
        omega
      have hrest : c.utf8Size - 1 + byteLen body + 1 - c.utf8Size = byteLen body := by
        have hpos := c.utf8Size_pos
        omega
      rw [hlen, List.cons_append, takeBytes, if_pos (by omega), hrest, ih]
      rfl

/-- The text between two quotes of one byte each. -/
theorem slice_quoted (hq : q.utf8Size = 1) (body : List Char) :
    slice (q :: body ++ [q]) 1 (byteLen (q :: body ++ [q]) - 1) = some body := by
  have hlen : byteLen (q :: body ++ [q]) = byteLen body + 2 := by
    simp only [byteLen, List.cons_append, List.map_cons, List.map_append, List.sum_cons,
      List.sum_append, List.map_nil, List.sum_nil, hq]
    omega
  have hdrop : dropBytes 1 (q :: body ++ [q]) = some (body ++ [q]) := by
    rw [List.cons_append, dropBytes, hq, if_pos (le_refl 1), Nat.sub_self, dropBytes]
  have htake : byteLen (q :: body ++ [q]) - 1 - 1 = byteLen body := by omega
  rw [slice, if_neg (by omega), hdrop, Option.bind_some, htake, takeBytes_append]

/-- A text between equal quotes is a lone quote, or has a body. -/
theorem quoted_cases (hstart : [q].isPrefixOf text = true) (hend : [q].isSuffixOf text = true) :
    text = [q] ∨ ∃ body, text = q :: body ++ [q] := by
  obtain ⟨rest, rfl⟩ := List.isPrefixOf_iff_prefix.mp hstart
  obtain ⟨front, hfront⟩ := List.isSuffixOf_iff_suffix.mp hend
  cases front with
  | nil => exact .inl hfront.symm
  | cons c front =>
      right
      rw [List.cons_append, List.singleton_append] at hfront
      injection hfront with hc hfront
      exact ⟨front, by rw [← hfront]; rfl⟩

end Slices

/-! ## What is decoded -/

section Decoding

variable (fromStr : String → Option String)

theorem decode_escapeChar (c : Char) (rest : List Char) :
    decodeSingleQuoted (escapeChar c ++ rest) = c :: decodeSingleQuoted rest := by
  unfold escapeChar
  split
  · rename_i h
    subst h
    rfl
  · split
    · rename_i h
      subst h
      rfl
    · split
      · rename_i h
        subst h
        rfl
      · split
        · rename_i h
          subst h
          rfl
        · split
          · rename_i h
            subst h
            rfl
          · rename_i h
            rw [List.singleton_append]
            rw [decodeSingleQuoted]
            · rintro rfl
              exact absurd rfl h
            · rintro next rest' rfl
              exact absurd rfl h

/-- **Decoding undoes escaping.** -/
theorem decode_escape (s : List Char) : decodeSingleQuoted (s.flatMap escapeChar) = s := by
  induction s with
  | nil => rfl
  | cons c s ih => rw [List.flatMap_cons, decode_escapeChar, ih]

theorem decodeString_singleQuoted (s : String) :
    decodeString fromStr (singleQuoted s) = some (some (stripNul s)) := by
  have hchars : (singleQuoted s).toList = '\'' :: s.toList.flatMap escapeChar ++ ['\''] :=
    String.toList_ofList
  have hdouble : startsWith (singleQuoted s) "\"" = false := by
    rw [startsWith, hchars]
    rfl
  have hstart : startsWith (singleQuoted s) "'" = true := by
    rw [startsWith, hchars]
    rfl
  have hend : endsWith (singleQuoted s) "'" = true := by
    rw [endsWith, hchars]
    exact List.isSuffixOf_iff_suffix.mpr ⟨_, rfl⟩
  have hslice := slice_quoted (q := '\'') (by decide) (s.toList.flatMap escapeChar)
  rw [decodeString, hdouble, if_neg (by decide), hstart, hend, Bool.and_self, if_pos rfl, hchars,
    hslice, Option.map_some, decode_escape, String.ofList_toList]

theorem decodeString_isSome {raw : String} (hraw : raw ≠ "'") :
    (decodeString fromStr raw).isSome = true := by
  unfold decodeString
  split
  · rfl
  · split
    · rename_i hquotes
      rw [Bool.and_eq_true] at hquotes
      rcases quoted_cases hquotes.1 hquotes.2 with hlone | ⟨body, hbody⟩
      · exact absurd (String.toList_inj.mp hlone) hraw
      · rw [hbody, slice_quoted (by decide) body]
        rfl
    · rfl

theorem decodeTemplate_isSome {raw : String} (hraw : raw ≠ "`") :
    (decodeTemplate raw).isSome = true := by
  unfold decodeTemplate
  split
  · rfl
  · rename_i hquotes
    rw [Bool.or_eq_true, Bool.or_eq_true, not_or, not_or, Bool.not_eq_true', Bool.not_eq_true',
      Bool.not_eq_false, Bool.not_eq_false] at hquotes
    rcases quoted_cases hquotes.1.1 hquotes.1.2 with hlone | ⟨body, hbody⟩
    · exact absurd (String.toList_inj.mp hlone) hraw
    · rw [hbody, slice_quoted (by decide) body]
      rfl

end Decoding

/-- **Decoding is total, and undoes escaping up to NUL characters.** -/
theorem decode_total (fromStr : String → Option String) :
    (∀ raw, raw ≠ "'" → (decodeString fromStr raw).isSome = true) ∧
    (∀ raw, raw ≠ "`" → (decodeTemplate raw).isSome = true) ∧
    ∀ s, decodeString fromStr (singleQuoted s) = some (some (stripNul s)) :=
  ⟨fun _ hraw => decodeString_isSome fromStr hraw, fun _ hraw => decodeTemplate_isSome hraw,
    decodeString_singleQuoted fromStr⟩

/-- A lone quote and a lone backtick are sliced out of range, and a NUL character is lost. -/
theorem decode_lone_quote : ¬ (∀ raw, (decodeString (fun _ => none) raw).isSome = true) ∧
    ¬ (∀ raw, (decodeTemplate raw).isSome = true) ∧
    ¬ ∀ s, decodeString (fun _ => none) (singleQuoted s) = some (some s) := by
  refine ⟨fun hall => absurd (hall "'") (by decide), fun hall => absurd (hall "`") (by decide),
    fun hall => ?_⟩
  have hnul := hall "\x00"
  rw [decodeString_singleQuoted] at hnul
  exact absurd hnul (by decide)

end Sulion.Ingest.CodeMode
