import Mathlib.Tactic

set_option autoImplicit false

/-! # The streaming UTF-8 decoder of the browser

`TextDecoder` with its defaults: malformed bytes become U+FFFD, a byte order mark at the start
of the stream is dropped, and with `stream: true` an unfinished sequence is kept for the next
call.
-/

namespace Sulion.Js

def replacement : Char := Char.ofNat 0xFFFD

/-- Where the decoder is in a sequence of bytes. -/
structure Utf8 where
  codePoint : Nat
  seen : Nat
  needed : Nat
  lower : Nat
  upper : Nat
  deriving DecidableEq

/-- Between characters. -/
def Utf8.start : Utf8 := ⟨0, 0, 0, 0x80, 0xBF⟩

/-- The first byte of a sequence. -/
def Utf8.first (b : Nat) : Utf8 × List Char :=
  if b ≤ 0x7F then (.start, [Char.ofNat b])
  else if 0xC2 ≤ b ∧ b ≤ 0xDF then (⟨b % 0x20, 0, 1, 0x80, 0xBF⟩, [])
  else if 0xE0 ≤ b ∧ b ≤ 0xEF then
    (⟨b % 0x10, 0, 2, if b = 0xE0 then 0xA0 else 0x80, if b = 0xED then 0x9F else 0xBF⟩, [])
  else if 0xF0 ≤ b ∧ b ≤ 0xF4 then
    (⟨b % 0x08, 0, 3, if b = 0xF0 then 0x90 else 0x80, if b = 0xF4 then 0x8F else 0xBF⟩, [])
  else (.start, [replacement])

/-- One byte: the state after it, and the characters it completes. -/
def Utf8.step (u : Utf8) (b : Nat) : Utf8 × List Char :=
  if u.needed = 0 then first b
  else if b < u.lower ∨ u.upper < b then
    -- the byte is taken again, as the first of a sequence
    ((first b).1, replacement :: (first b).2)
  else
    let codePoint := u.codePoint * 0x40 + b % 0x40
    if u.seen + 1 = u.needed then (.start, [Char.ofNat codePoint])
    else (⟨codePoint, u.seen + 1, u.needed, 0x80, 0xBF⟩, [])

/-- The bytes of one call. -/
def Utf8.feed (u : Utf8) : List UInt8 → Utf8 × List Char
  | [] => (u, [])
  | b :: bytes =>
      (((u.step b.toNat).1.feed bytes).1, (u.step b.toNat).2 ++ ((u.step b.toNat).1.feed bytes).2)

/-- The end of the stream. -/
def Utf8.flush (u : Utf8) : List Char := if u.needed = 0 then [] else [replacement]

structure TextDecoder where
  utf8 : Utf8
  /-- Something has been decoded, so that no byte order mark follows. -/
  bomSeen : Bool
  deriving DecidableEq

def TextDecoder.new : TextDecoder := ⟨.start, false⟩

/-- Drop a byte order mark at the start. -/
def dropBom (bomSeen : Bool) (text : List Char) : Bool × List Char :=
  if bomSeen then (true, text)
  else
    match text with
    | [] => (false, [])
    | c :: text => (true, if c = Char.ofNat 0xFEFF then text else c :: text)

/-- `decode(value, { stream: true })`. -/
def TextDecoder.decode (d : TextDecoder) (bytes : List UInt8) : TextDecoder × List Char :=
  let (utf8, text) := d.utf8.feed bytes
  let (bomSeen, text) := dropBom d.bomSeen text
  (⟨utf8, bomSeen⟩, text)

/-- `decode(undefined, { stream: false })`. -/
def TextDecoder.finish (d : TextDecoder) : List Char := (dropBom d.bomSeen d.utf8.flush).2

variable {bomSeen : Bool}

theorem Utf8.feed_append (u : Utf8) (a b : List UInt8) :
    u.feed (a ++ b) = (((u.feed a).1.feed b).1, (u.feed a).2 ++ ((u.feed a).1.feed b).2) := by
  induction a generalizing u with
  | nil => rfl
  | cons x a ih =>
      rw [List.cons_append, feed, ih, feed, List.append_assoc]

theorem dropBom_append (bomSeen : Bool) (a b : List Char) :
    dropBom bomSeen (a ++ b) = ((dropBom (dropBom bomSeen a).1 b).1,
      (dropBom bomSeen a).2 ++ (dropBom (dropBom bomSeen a).1 b).2) := by
  cases bomSeen with
  | true => rfl
  | false =>
      cases a with
      | nil => rfl
      | cons c a =>
          simp only [dropBom, List.cons_append, Bool.false_eq_true, if_false, if_true]
          split <;> rfl

/-- **Where a call ends does not matter.** -/
theorem TextDecoder.decode_append (d : TextDecoder) (a b : List UInt8) :
    d.decode (a ++ b) =
      (((d.decode a).1.decode b).1, (d.decode a).2 ++ ((d.decode a).1.decode b).2) := by
  unfold decode
  rw [Utf8.feed_append]
  dsimp only
  rw [dropBom_append]

end Sulion.Js
