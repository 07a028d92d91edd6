import Mathlib.Tactic

set_option autoImplicit false

/-! # Base64

The standard engine: three bytes are four characters of the alphabet, the last group is padded, and
the bits that padding leaves over are zero.
-/

namespace Sulion.Rust

def base64Alphabet : List Char :=
  "ABCDEFGHIJKLMNOPQRSTUVWXYZabcdefghijklmnopqrstuvwxyz0123456789+/".toList

def base64Digit (n : Nat) : Char := base64Alphabet.getD n 'A'

def base64Value (c : Char) : Option Nat := base64Alphabet.findIdx? (· = c)

def base64Chars : List UInt8 → List Char
  | [] => []
  | [a] => [base64Digit (a.toNat / 4), base64Digit (a.toNat % 4 * 16), '=', '=']
  | [a, b] =>
      let n := a.toNat * 256 + b.toNat
      [base64Digit (n / 1024), base64Digit (n / 16 % 64), base64Digit (n % 16 * 4), '=']
  | a :: b :: c :: rest =>
      let n := a.toNat * 65536 + b.toNat * 256 + c.toNat
      [base64Digit (n / 262144), base64Digit (n / 4096 % 64), base64Digit (n / 64 % 64),
        base64Digit (n % 64)] ++ base64Chars rest

/-- The last four characters when they are padded. -/
def base64Last (c1 c2 c3 c4 : Char) : Option (List UInt8) :=
  if c4 = '=' then
    if c3 = '=' then do
      let n := (← base64Value c1) * 64 + (← base64Value c2)
      if n % 16 = 0 then some [UInt8.ofNat (n / 16)] else none
    else do
      let n := (← base64Value c1) * 4096 + (← base64Value c2) * 64 + (← base64Value c3)
      if n % 4 = 0 then some [UInt8.ofNat (n / 1024), UInt8.ofNat (n / 4)] else none
  else none

def base64Bytes : List Char → Option (List UInt8)
  | [] => some []
  | c1 :: c2 :: c3 :: c4 :: rest =>
      match base64Value c1, base64Value c2, base64Value c3, base64Value c4 with
      | some d1, some d2, some d3, some d4 =>
          let n := d1 * 262144 + d2 * 4096 + d3 * 64 + d4
          (base64Bytes rest).map
            ([UInt8.ofNat (n / 65536), UInt8.ofNat (n / 256), UInt8.ofNat n] ++ ·)
      | _, _, _, _ => if rest = [] then base64Last c1 c2 c3 c4 else none
  | _ => none

/-- `STANDARD.encode`. -/
def base64Encode (bytes : List UInt8) : String := String.ofList (base64Chars bytes)

/-- `STANDARD.decode`. -/
def base64Decode (text : String) : Option (List UInt8) := base64Bytes text.toList

theorem base64Value_digit {n : Nat} (h : n < 64) : base64Value (base64Digit n) = some n := by
  have hall : ∀ n < 64, base64Value (base64Digit n) = some n := by decide +kernel
  exact hall n h

theorem base64Value_pad : base64Value '=' = none := by decide +kernel

theorem base64Digit_ne_pad {n : Nat} (h : n < 64) : base64Digit n ≠ '=' := by
  intro heq
  have hvalue := base64Value_digit h
  rw [heq, base64Value_pad] at hvalue
  cases hvalue

theorem ofNat_toNat_of_mod {n : Nat} {a : UInt8} (h : n % 256 = a.toNat) : UInt8.ofNat n = a := by
  apply UInt8.toNat.inj
  rw [UInt8.toNat_ofNat']
  exact h

theorem base64Bytes_chars (bytes : List UInt8) : base64Bytes (base64Chars bytes) = some bytes := by
  fun_induction base64Chars bytes with
  | case1 => rfl
  | case2 a =>
      have ha := a.toNat_lt
      have h1 : base64Value (base64Digit (a.toNat / 4)) = some (a.toNat / 4) :=
        base64Value_digit (by omega)
      have h2 : base64Value (base64Digit (a.toNat % 4 * 16)) = some (a.toNat % 4 * 16) :=
        base64Value_digit (by omega)
      have hbyte : UInt8.ofNat ((a.toNat / 4 * 64 + a.toNat % 4 * 16) / 16) = a :=
        ofNat_toNat_of_mod (by omega)
      have hrest : (a.toNat / 4 * 64 + a.toNat % 4 * 16) % 16 = 0 := by omega
      simp only [base64Bytes, base64Last, h1, h2, base64Value_pad, if_true, Option.bind_eq_bind,
        Option.bind_some, hrest, hbyte]
  | case3 a b n =>
      have ha := a.toNat_lt
      have hb := b.toNat_lt
      have hn : n = a.toNat * 256 + b.toNat := rfl
      clear_value n
      have h1 : base64Value (base64Digit (n / 1024)) = some (n / 1024) :=
        base64Value_digit (by omega)
      have h2 : base64Value (base64Digit (n / 16 % 64)) = some (n / 16 % 64) :=
        base64Value_digit (by omega)
      have h3 : base64Value (base64Digit (n % 16 * 4)) = some (n % 16 * 4) :=
        base64Value_digit (by omega)
      have hpad : base64Digit (n % 16 * 4) ≠ '=' := base64Digit_ne_pad (by omega)
      have hbytes : n / 1024 * 4096 + n / 16 % 64 * 64 + n % 16 * 4 = n * 4 := by omega
      have hbyte1 : UInt8.ofNat (n * 4 / 1024) = a := ofNat_toNat_of_mod (by omega)
      have hbyte2 : UInt8.ofNat (n * 4 / 4) = b := ofNat_toNat_of_mod (by omega)
      have hrest : n * 4 % 4 = 0 := by omega
      simp only [base64Bytes, base64Last, h1, h2, h3, base64Value_pad, if_true, if_neg hpad,
        Option.bind_eq_bind, Option.bind_some, hbytes, hrest, hbyte1, hbyte2]
  | case4 a b c rest n ih =>
      have ha := a.toNat_lt
      have hb := b.toNat_lt
      have hc := c.toNat_lt
      have hn : n = a.toNat * 65536 + b.toNat * 256 + c.toNat := rfl
      clear_value n
      have h1 : base64Value (base64Digit (n / 262144)) = some (n / 262144) :=
        base64Value_digit (by omega)
      have h2 : base64Value (base64Digit (n / 4096 % 64)) = some (n / 4096 % 64) :=
        base64Value_digit (by omega)
      have h3 : base64Value (base64Digit (n / 64 % 64)) = some (n / 64 % 64) :=
        base64Value_digit (by omega)
      have h4 : base64Value (base64Digit (n % 64)) = some (n % 64) :=
        base64Value_digit (by omega)
      have hbytes : n / 262144 * 262144 + n / 4096 % 64 * 4096 + n / 64 % 64 * 64 + n % 64 = n := by
        omega
      have hbyte1 : UInt8.ofNat (n / 65536) = a := ofNat_toNat_of_mod (by omega)
      have hbyte2 : UInt8.ofNat (n / 256) = b := ofNat_toNat_of_mod (by omega)
      have hbyte3 : UInt8.ofNat n = c := ofNat_toNat_of_mod (by omega)
      simp only [List.cons_append, List.nil_append, base64Bytes, h1, h2, h3, h4, hbytes, hbyte1,
        hbyte2, hbyte3, ih, Option.map_some]

/-- Base64 round-trips. -/
theorem base64Decode_encode (bytes : List UInt8) :
    base64Decode (base64Encode bytes) = some bytes := by
  rw [base64Decode, base64Encode, String.toList_ofList, base64Bytes_chars]

end Sulion.Rust
