import Mathlib.Data.Int.Notation
import Mathlib.Tactic.Common

/-!
# Machine integers

`castInt` is the conversion to a 32-bit `int`, and `subUInt64` the subtraction of 64-bit unsigned
integers, both on the mathematical integers.  Each comes with the range on which it is exact.
-/

namespace OpenDisplay.Lib.Machine

/-- `static_cast<int>`. -/
def castInt (x : ℤ) : ℤ := x.bmod 4294967296

theorem castInt_of_range {x : ℤ} (hlo : -2147483648 ≤ x) (hhi : x < 2147483648) :
    castInt x = x := by
  rw [castInt, Int.bmod_def]
  split <;> omega

theorem castInt_natCast_le (n : ℕ) : castInt n ≤ n := by
  rw [castInt, Int.bmod_def]
  split <;> omega

/-- `a - b` in `uint64_t`. -/
def subUInt64 (a b : ℕ) : ℕ := (a + 18446744073709551616 - b) % 18446744073709551616

theorem subUInt64_of_le {a b : ℕ} (hle : b ≤ a) (ha : a < 18446744073709551616) :
    subUInt64 a b = a - b := by
  unfold subUInt64
  omega

end OpenDisplay.Lib.Machine
