import LinuxInterview.Library.Decimal

/-!
# Arithmetic on doubles

An operation on doubles is the exact one, rounded. Many are exact: those whose result has a short
significand, and a division by a power of two.
-/

namespace LinuxInterview.Library

/-- The double that a number is rounded to, where the exponent has no upper bound. -/
def float (x : ℚ) : ℚ := if x < 0 then -double (-x) else double x

variable {x : ℚ}

theorem double_zero : double 0 = 0 := by
  have zero := double_eq_self (m := 0) (k := 0) (by norm_num) (by norm_num)
  simpa using zero

theorem float_zero : float 0 = 0 := by
  rw [float, if_neg (lt_irrefl 0), double_zero]

theorem float_neg (x : ℚ) : float (-x) = -float x := by
  rcases lt_trichotomy x 0 with negative | rfl | positive
  · rw [float, float, if_neg (by linarith), if_pos negative, neg_neg]
  · rw [neg_zero, float_zero, neg_zero]
  · rw [float, float, if_pos (by linarith), if_neg (by linarith), neg_neg]

theorem float_of_nonneg (nonneg : 0 ≤ x) : float x = double x := if_neg (not_lt.mpr nonneg)

theorem float_eq_self {m : ℤ} {k : ℤ} (significand : m.natAbs < 2 ^ 53) (exponent : -1074 ≤ k) :
    float (m * 2 ^ k) = m * 2 ^ k := by
  have unsigned := double_eq_self significand exponent
  have nonneg : (0 : ℚ) ≤ m.natAbs * 2 ^ k := by positivity
  rw [← float_of_nonneg nonneg] at unsigned
  rcases Int.natAbs_eq m with same | same
  · rw [same, Int.cast_natCast]
    exact unsigned
  · rw [same, Int.cast_neg, Int.cast_natCast, neg_mul, float_neg, unsigned]

theorem nearestEven_le (x : ℚ) : nearestEven x ≤ ⌊x⌋₊ + 1 := by
  simp only [nearestEven]
  split_ifs <;> omega

/-- A double has a significand of 53 bits, the last one worth no less than the rounding says. -/
theorem double_form (positive : 0 < x) :
    ∃ (m : Nat) (k : ℤ), double x = m * 2 ^ k ∧ m < 2 ^ 53 ∧ max (Int.log 2 x - 52) (-1074) ≤ k := by
  set e := max (Int.log 2 x - 52) (-1074) with he
  have scaled : x / 2 ^ e < 2 ^ 53 := by
    have below : x < 2 ^ (Int.log 2 x + 1) := Int.lt_zpow_succ_log_self one_lt_two x
    have above : (2 : ℚ) ^ (Int.log 2 x + 1) ≤ 2 ^ (53 + e) := zpow_le_zpow_right₀ one_le_two (by omega)
    rw [div_lt_iff₀ (by positivity)]
    calc x < 2 ^ (Int.log 2 x + 1) := below
      _ ≤ 2 ^ (53 + e) := above
      _ = 2 ^ 53 * 2 ^ e := by rw [zpow_add₀ two_ne_zero]; norm_num
  have small : nearestEven (x / 2 ^ e) ≤ 2 ^ 53 := by
    have floor : ⌊x / 2 ^ e⌋₊ < 2 ^ 53 := by
      rw [Nat.floor_lt (by positivity)]
      exact_mod_cast scaled
    exact (nearestEven_le _).trans floor
  rcases small.lt_or_eq with less | full
  · exact ⟨nearestEven (x / 2 ^ e), e, rfl, less, le_rfl⟩
  · refine ⟨2 ^ 52, e + 1, ?_, by norm_num, by omega⟩
    rw [double]
    simp only [← he, full]
    rw [zpow_add₀ two_ne_zero]
    norm_num
    ring

theorem float_div_two_pow (s : Nat) (large : x = 0 ∨ 1 ≤ |x|) (few : s ≤ 1000) :
    float (float x / 2 ^ s) = float x / 2 ^ s := by
  have positive : ∀ y : ℚ, 1 ≤ y → float (float y / 2 ^ s) = float y / 2 ^ s := by
    intro y above
    obtain ⟨m, k, form, significand, exponent⟩ := double_form (x := y) (by linarith)
    have log : 0 ≤ Int.log 2 y := by
      rw [← Int.zpow_le_iff_le_log one_lt_two (by linarith)]
      simpa using above
    have shifted : (m * 2 ^ k : ℚ) / 2 ^ s = ((m : ℤ) : ℚ) * 2 ^ (k - s) := by
      rw [zpow_sub₀ two_ne_zero, zpow_natCast, Int.cast_natCast, mul_div_assoc]
    have rounded : float y = m * 2 ^ k := by rw [float_of_nonneg (by linarith), form]
    rw [rounded, shifted]
    exact float_eq_self (by simpa using significand) (by omega)
  rcases large with rfl | large
  · simp [float_zero]
  · rcases le_abs.mp large with above | below
    · exact positive x above
    · have mirrored := positive (-x) below
      rw [float_neg, neg_div, float_neg] at mirrored
      exact neg_injective mirrored

end LinuxInterview.Library
