import Mathlib

/-!
# Signed 32-bit numbers

The value that a number has in a signed 32-bit integer. Sums and products are taken of the numbers
first; the value of the result is the same as with every step taken modulo `2 ^ 32`.
-/

set_option autoImplicit false

namespace SymbianWeb.MachineInt

/-- The value of a number in a signed 32-bit integer. -/
def int32 (n : Int) : Int := (n + 2 ^ 31) % 2 ^ 32 - 2 ^ 31

theorem int32_of_lt {n : Int} (h : -2 ^ 31 ≤ n) (h' : n < 2 ^ 31) : int32 n = n := by
  rw [int32]
  omega

theorem int32_natCast {n : Nat} (h : n < 2 ^ 31) : int32 n = n :=
  int32_of_lt (by omega) (by omega)

end SymbianWeb.MachineInt
