import Mathlib.Tactic

set_option autoImplicit false

/-! # Scalars of the model

`i64` values are integers; where the source saturates or wraps, the model does (`i64Clamp`,
`wrapI64`). A `DateTime<Utc>` is the number of microseconds since the epoch, the resolution of
a Postgres `TIMESTAMPTZ`.
-/

namespace Sulion

abbrev Uuid := BitVec 128

instance : LawfulBEq Uuid := instLawfulBEq

instance : Std.TransOrd Uuid := BitVec.instTransOrd

/-- The `Display` of a UUID: lower-case hexadecimal digits in five groups. -/
def uuidText (u : Uuid) : String :=
  let digits := (List.range 32).map fun i => Nat.digitChar (u.toNat / 16 ^ (31 - i) % 16)
  let group (start len : Nat) : String := String.ofList ((digits.drop start).take len)
  String.intercalate "-" [group 0 8, group 8 4, group 12 4, group 16 4, group 20 12]

/-- Microseconds since the epoch. -/
abbrev Timestamp := Int

/-- Days since the epoch. -/
abbrev Day := Int

/-- The UTC day of a timestamp (`date_naive`, `(t AT TIME ZONE 'UTC')::DATE`). -/
def Timestamp.dateNaive (t : Timestamp) : Day := t / 86400000000

/-- `timestamp`: whole seconds, rounded down. -/
def Timestamp.seconds (t : Timestamp) : Int := t / 1000000

/-- `timestamp_millis`: whole milliseconds, rounded down. -/
def Timestamp.timestampMillis (t : Timestamp) : Int := t / 1000

def i64Min : Int := -2 ^ 63

def i64Max : Int := 2 ^ 63 - 1

/-- The nearest `i64`. -/
def i64Clamp (n : Int) : Int := max i64Min (min i64Max n)

/-- `i64::saturating_add`. -/
def saturatingAdd (a b : Int) : Int := i64Clamp (a + b)

/-- `i64::saturating_sub`. -/
def saturatingSub (a b : Int) : Int := i64Clamp (a - b)

/-- The `i64` with the same 64 bits: what arithmetic leaves in a release build. -/
def wrapI64 (n : Int) : Int := Int.bmod n (2 ^ 64)

theorem wrapI64_wrap_add (a b : Int) : wrapI64 (wrapI64 a + b) = wrapI64 (a + b) :=
  Int.bmod_add_bmod

theorem wrapI64_wrap_sub (a b : Int) : wrapI64 (wrapI64 a - b) = wrapI64 (a - b) :=
  Int.bmod_sub_bmod

theorem wrapI64_of_mem {n : Int} (h0 : i64Min ≤ n) (h1 : n ≤ i64Max) : wrapI64 n = n := by
  unfold i64Min at h0
  unfold i64Max at h1
  exact Int.bmod_eq_of_le_mul_two (by omega) (by omega)

theorem i64Clamp_of_mem {n : Int} (h0 : 0 ≤ n) (h1 : n ≤ i64Max) : i64Clamp n = n := by
  unfold i64Clamp i64Min i64Max at *
  omega

theorem i64Clamp_nonneg {n : Int} (h : 0 ≤ n) : 0 ≤ i64Clamp n := by
  unfold i64Clamp i64Min i64Max
  omega

end Sulion
