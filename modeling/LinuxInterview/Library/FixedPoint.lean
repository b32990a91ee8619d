import Mathlib.Algebra.Order.Floor.Semifield
import Mathlib.Tactic

/-!
# Fixed-point products

A number times a fraction of `2 ^ w`, rounded down, and what the rounding costs.
-/

namespace LinuxInterview.Library

def mulShift (w val factor : Nat) : Nat := val * factor / 2 ^ w

variable {w val val' factor factor' : Nat}

theorem mulShift_mono (larger : val ≤ val') (heavier : factor ≤ factor') :
    mulShift w val factor ≤ mulShift w val' factor' :=
  Nat.div_le_div_right (Nat.mul_le_mul larger heavier)

theorem mulShift_le (fraction : factor ≤ 2 ^ w) : mulShift w val factor ≤ val := by
  apply Nat.div_le_of_le_mul
  rw [Nat.mul_comm]
  exact Nat.mul_le_mul_right val fraction

/-! ## Rounding down -/

theorem cast_div_pow_le (n k : Nat) : ((n / 2 ^ k : Nat) : ℚ) ≤ n / 2 ^ k := by
  have rounded := Nat.cast_div_le (α := ℚ) (m := n) (n := 2 ^ k)
  push_cast at rounded
  exact rounded

theorem lt_cast_div_pow_add_one (n k : Nat) : (n : ℚ) / 2 ^ k < (n / 2 ^ k : Nat) + 1 := by
  have floor := Nat.lt_floor_add_one ((n : ℚ) / (2 ^ k : Nat))
  rw [Nat.floor_div_eq_div] at floor
  push_cast at floor
  exact floor

theorem cast_mulShift_le (w val factor : Nat) :
    (mulShift w val factor : ℚ) ≤ val * (factor / 2 ^ w) := by
  have rounded := cast_div_pow_le (val * factor) w
  rw [Nat.cast_mul, mul_div_assoc] at rounded
  exact rounded

theorem lt_cast_mulShift_add_one (w val factor : Nat) :
    (val : ℚ) * (factor / 2 ^ w) < mulShift w val factor + 1 := by
  have rounded := lt_cast_div_pow_add_one (val * factor) w
  rw [Nat.cast_mul, mul_div_assoc] at rounded
  exact rounded

end LinuxInterview.Library
