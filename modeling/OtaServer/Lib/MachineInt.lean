import Mathlib.Algebra.Group.Int.Defs
import Mathlib.Algebra.Group.Nat.Defs

/-!
# Numbers in an `int`

* `toInt`: a number converted to an `int` of 32 bits. `toInt_eq`: it is the remainder, counted from `-2^31` on.
* `toInt_of_lt`, `toInt_of_count`, `toInt_bounds`, `toInt_pos_iff`, `toInt_lt_of_wraps`: counts.
-/

namespace Lib

/-- A `long` as an `int`. -/
def toInt (v : Int) : Int := Int.bmod v (2 ^ 32)

theorem toInt_eq (v : Int) : toInt v = if v % 2 ^ 32 < 2 ^ 31 then v % 2 ^ 32 else v % 2 ^ 32 - 2 ^ 32 := by
  rw [toInt, Int.bmod_def]
  rfl

theorem toInt_of_lt {n : Nat} (h : n < 2 ^ 31) : toInt n = n := by
  rw [toInt, Int.bmod_eq_of_le (by omega) (by omega)]

theorem toInt_of_count {v : Int} (h₀ : 0 ≤ v) (h : v < 2 ^ 31) : toInt v = v := by
  rw [toInt, Int.bmod_eq_of_le (by omega) (by omega)]

theorem toInt_error : toInt (-1) = -1 := by decide

/-- A count is not made larger. -/
theorem toInt_bounds {v : Int} (h : 0 ≤ v) : -v ≤ toInt v ∧ toInt v ≤ v := by
  rw [toInt, Int.bmod_def]
  split <;> omega

/-- A count of less than 2^32 stays positive exactly if it is an `int`. -/
theorem toInt_pos_iff {n : Nat} (hpos : 0 < n) (hlt : n < 2 ^ 32) : 0 < toInt n ↔ n < 2 ^ 31 := by
  rw [toInt, Int.bmod_def]
  split <;> omega

theorem toInt_lt_of_wraps {v : Int} (h : 2 ^ 31 ≤ v) : toInt v < v := by
  rw [toInt, Int.bmod_def]
  split <;> omega

end Lib
