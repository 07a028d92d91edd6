import Sulion.Js.TextDecoder

set_option autoImplicit false

/-! # Bytes and strings

`str::as_bytes` and the two ways back. `String::from_utf8_lossy` replaces what is malformed as the
decoder of the browser does, so it is that decoder, run over all the bytes at once.
-/

namespace Sulion.Rust

open Js

/-- `str::as_bytes`. -/
def asBytes (text : String) : List UInt8 := text.toList.flatMap String.utf8EncodeChar

/-- `String::from_utf8_lossy`. -/
def fromUtf8Lossy (bytes : List UInt8) : String :=
  let (utf8, text) := Utf8.start.feed bytes
  String.ofList (text ++ utf8.flush)

/-- `str::from_utf8`: what is well-formed is decoded without a replacement. -/
def fromUtf8 (bytes : List UInt8) : Option String :=
  let text := fromUtf8Lossy bytes
  if asBytes text = bytes then some text else none

theorem toNat_byte {n : Nat} (h : n < 256) : (UInt8.ofNat n).toNat = n := by
  rw [UInt8.toNat_ofNat', Nat.mod_eq_of_lt h]

theorem step_start (b : Nat) : Utf8.start.step b = Utf8.first b := by
  rw [Utf8.step]
  exact if_pos rfl

/-- The first byte of a longer sequence starts it. -/
theorem feed_first {b : Nat} {u : Utf8} {rest : List UInt8} (hb : b < 256)
    (h : Utf8.first b = (u, [])) : Utf8.start.feed (UInt8.ofNat b :: rest) = u.feed rest := by
  rw [Utf8.feed, toNat_byte hb, step_start, h]
  rfl

/-- A byte inside a sequence. -/
theorem feed_inner {codePoint seen needed lower upper n : Nat} {rest : List UInt8}
    (hseen : seen + 1 < needed) (hlower : lower ≤ n % 64 + 128) (hupper : n % 64 + 128 ≤ upper) :
    (Utf8.mk codePoint seen needed lower upper).feed (UInt8.ofNat (n % 64 + 128) :: rest) =
      (Utf8.mk (codePoint * 64 + n % 64) (seen + 1) needed 128 191).feed rest := by
  have hstep : (Utf8.mk codePoint seen needed lower upper).step (n % 64 + 128) =
      (⟨codePoint * 64 + (n % 64 + 128) % 64, seen + 1, needed, 128, 191⟩, []) := by
    rw [Utf8.step, if_neg (by dsimp only; omega), if_neg (by dsimp only; omega)]
    exact if_neg (by dsimp only; omega)
  rw [Utf8.feed, toNat_byte (by omega), hstep, show (n % 64 + 128) % 64 = n % 64 by omega]
  rfl

/-- The last byte of a sequence completes the character. -/
theorem feed_last {codePoint seen lower upper n : Nat} (hlower : lower ≤ n % 64 + 128)
    (hupper : n % 64 + 128 ≤ upper) :
    (Utf8.mk codePoint seen (seen + 1) lower upper).feed [UInt8.ofNat (n % 64 + 128)] =
      (.start, [Char.ofNat (codePoint * 64 + n % 64)]) := by
  have hstep : (Utf8.mk codePoint seen (seen + 1) lower upper).step (n % 64 + 128) =
      (.start, [Char.ofNat (codePoint * 64 + (n % 64 + 128) % 64)]) := by
    rw [Utf8.step, if_neg (by dsimp only; omega), if_neg (by dsimp only; omega)]
    exact if_pos rfl
  rw [Utf8.feed, toNat_byte (by omega), hstep, show (n % 64 + 128) % 64 = n % 64 by omega]
  rfl

/-- **A character is decoded from its bytes.** -/
theorem feed_utf8EncodeChar (c : Char) :
    Utf8.start.feed (String.utf8EncodeChar c) = (.start, [c]) := by
  have hchar : Char.ofNat c.toNat = c := Char.ofNat_toNat c
  have hvalid : c.toNat < 0xD800 ∨ 0xDFFF < c.toNat ∧ c.toNat < 0x110000 := c.valid
  have hval : c.val.toNat = c.toNat := rfl
  simp only [String.utf8EncodeChar, hval]
  generalize c.toNat = v at hchar hvalid
  split
  · rename_i hone
    rw [Utf8.feed, toNat_byte (by omega), step_start, Utf8.first, if_pos hone, hchar]
    rfl
  split
  · have hfirst : Utf8.first (v / 64 % 32 + 192) = (⟨v / 64, 0, 1, 128, 191⟩, []) := by
      rw [Utf8.first, if_neg (by omega), if_pos (by omega), show
        (v / 64 % 32 + 192) % 32 = v / 64 by omega]
    rw [feed_first (by omega) hfirst, feed_last (by omega) (by omega),
      show v / 64 * 64 + v % 64 = v by omega, hchar]
  split
  · -- the second byte of `E0` and of `ED` is bounded more closely
    have hfirst : Utf8.first (v / 4096 % 16 + 224) = (⟨v / 4096, 0, 2,
        if v / 4096 % 16 + 224 = 0xE0 then 0xA0 else 0x80,
        if v / 4096 % 16 + 224 = 0xED then 0x9F else 0xBF⟩, []) := by
      rw [Utf8.first, if_neg (by omega), if_neg (by omega), if_pos (by omega),
        show (v / 4096 % 16 + 224) % 16 = v / 4096 by omega]
    rw [feed_first (by omega) hfirst, feed_inner (by omega) (by split <;> omega)
      (by split <;> omega), feed_last (by omega) (by omega),
      show (v / 4096 * 64 + v / 64 % 64) * 64 + v % 64 = v by omega, hchar]
  · have hfirst : Utf8.first (v / 262144 % 8 + 240) = (⟨v / 262144, 0, 3,
        if v / 262144 % 8 + 240 = 0xF0 then 0x90 else 0x80,
        if v / 262144 % 8 + 240 = 0xF4 then 0x8F else 0xBF⟩, []) := by
      rw [Utf8.first, if_neg (by omega), if_neg (by omega), if_neg (by omega), if_pos (by omega),
        show (v / 262144 % 8 + 240) % 8 = v / 262144 by omega]
    rw [feed_first (by omega) hfirst, feed_inner (by omega) (by split <;> omega)
      (by split <;> omega), feed_inner (by omega) (by omega) (by omega),
      feed_last (by omega) (by omega), show
        ((v / 262144 * 64 + v / 4096 % 64) * 64 + v / 64 % 64) * 64 + v % 64 = v by omega, hchar]

theorem feed_asBytes (text : List Char) :
    Utf8.start.feed (text.flatMap String.utf8EncodeChar) = (.start, text) := by
  induction text with
  | nil => rfl
  | cons c text ih =>
      rw [List.flatMap_cons, Utf8.feed_append, feed_utf8EncodeChar, ih]
      rfl

@[simp] theorem fromUtf8Lossy_asBytes (text : String) : fromUtf8Lossy (asBytes text) = text := by
  rw [fromUtf8Lossy, asBytes, feed_asBytes]
  simp [Utf8.flush, Utf8.start]

@[simp] theorem fromUtf8_asBytes (text : String) : fromUtf8 (asBytes text) = some text := by
  simp [fromUtf8]

theorem asBytes_append (a b : String) : asBytes (a ++ b) = asBytes a ++ asBytes b := by
  simp [asBytes]

/-- A byte 0 is a character of its own. -/
theorem zero_notMem_asBytes {text : String} (h : '\x00' ∉ text.toList) : 0 ∉ asBytes text := by
  rw [asBytes, List.mem_flatMap]
  rintro ⟨c, hc, hzero⟩
  have hne : c.toNat ≠ 0 := by
    intro hnat
    refine h (?_ : '\x00' ∈ text.toList)
    have hchar : c = '\x00' := Char.ofNat_toNat c ▸ congrArg Char.ofNat hnat
    exact hchar ▸ hc
  have hval : c.val.toNat = c.toNat := rfl
  have hvalid : c.toNat < 0xD800 ∨ 0xDFFF < c.toNat ∧ c.toNat < 0x110000 := c.valid
  have hbyte : ∀ {n : Nat}, n < 256 → n ≠ 0 → (0 : UInt8) ≠ UInt8.ofNat n := by
    intro n hn hpos hsame
    refine hpos ?_
    rw [← toNat_byte hn, ← hsame]
    rfl
  simp only [String.utf8EncodeChar, hval] at hzero
  split at hzero
  · exact hbyte (by omega) hne (List.mem_singleton.mp hzero)
  split at hzero
  · simp only [List.mem_cons, List.not_mem_nil, or_false] at hzero
    rcases hzero with h | h <;> exact hbyte (by omega) (by omega) h
  split at hzero
  · simp only [List.mem_cons, List.not_mem_nil, or_false] at hzero
    rcases hzero with h | h | h <;> exact hbyte (by omega) (by omega) h
  · simp only [List.mem_cons, List.not_mem_nil, or_false] at hzero
    rcases hzero with h | h | h | h <;> exact hbyte (by omega) (by omega) h

end Sulion.Rust
