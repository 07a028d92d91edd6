import Mathlib.Tactic

set_option autoImplicit false

/-! # Casts between the machine's integers

`as` between integer types keeps the low bits. Arithmetic wraps, as it does in a release build.
-/

namespace Sulion.Rust

def i32Max : Int := 2147483647

/-- `as i32`. -/
def asI32 (n : Int) : Int := n.bmod 4294967296

/-- `as usize`. -/
def asUsize (n : Int) : Nat := (n % 18446744073709551616).toNat

/-- `i32::clamp`, which panics when the bounds cross. -/
def clampI32 (value low high : Int) : Option Int :=
  if low ≤ high then some (max low (min value high)) else none

/-- `&items[start..stop]`, which panics outside of the items. -/
def slice {α : Type*} (items : List α) (start stop : Nat) : Option (List α) :=
  if start ≤ stop ∧ stop ≤ items.length then some ((items.take stop).drop start) else none

variable {n value low high : Int}

theorem asI32_of_fits (hlow : -2147483648 ≤ n) (hhigh : n ≤ i32Max) : asI32 n = n := by
  unfold asI32 i32Max at *
  exact Int.bmod_eq_of_le (by omega) (by omega)

theorem asI32_le (n : Int) : asI32 n ≤ i32Max := by
  have h : n.bmod 4294967296 < (4294967296 + 1) / 2 := Int.bmod_lt (by norm_num)
  unfold asI32 i32Max
  omega

theorem asUsize_of_fits (hlow : 0 ≤ n) (hhigh : n ≤ i32Max) : asUsize n = n.toNat := by
  unfold asUsize i32Max at *
  rw [Int.emod_eq_of_lt hlow (by omega)]

/-- What fits below a bound is not changed by the cast, and what does not fit comes out smaller. -/
theorem asI32_le_self (h : 0 ≤ n) : asI32 n ≤ n := by
  have hle := asI32_le n
  by_cases hn : n ≤ i32Max
  · rw [asI32_of_fits (by omega) hn]
  · omega

theorem clampI32_eq_some (h : low ≤ high) :
    clampI32 value low high = some (max low (min value high)) := if_pos h

theorem clampI32_eq_none (h : high < low) : clampI32 value low high = none :=
  if_neg (by omega)

end Sulion.Rust
