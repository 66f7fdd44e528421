import Mathlib.Algebra.Order.Field.Power
import Mathlib.Data.Rat.Cast.Order
import OntoGraph.Number.Power

/-!
# Powers as rational numbers

A power with an integral exponent has its natural powers above and below the line.
-/

namespace OntoGraph.Number

@[simp] theorem cast_twoTo (n : Nat) : ((twoTo n : Nat) : ℚ) = 2 ^ n := Nat.cast_pow 2 n

@[simp] theorem cast_tenTo (n : Nat) : ((tenTo n : Nat) : ℚ) = 10 ^ n := Nat.cast_pow 10 n

theorem pow_toNat {a : ℚ} (ha : a ≠ 0) (k : Int) : a ^ k.toNat = a ^ k * a ^ (-k).toNat := by
  rw [← zpow_natCast, ← zpow_natCast, ← zpow_add₀ ha]
  congr 1
  omega

end OntoGraph.Number
