import LinuxInterview.Library.FixedPoint
import LinuxInterview.Library.Words
import Mathlib.Data.Nat.Size

/-!
# The scaling of `my_calc_delta` in `sched_probe.c`
-/

namespace LinuxInterview.Arithmetic
open Library

/-- The loop `while (fact >> 32) { fact >>= 1; shift--; }`. -/
def normalise (fact : UInt64) (shift : Int) : UInt64 × Int :=
  if fact >>> 32 ≠ 0 then normalise (fact >>> 1) (shift - 1) else (fact, shift)
termination_by fact.toNat
decreasing_by
  rename_i large
  have positive : fact.toNat ≠ 0 := by
    intro zero
    have empty : fact = 0 := UInt64.toNat_inj.mp zero
    exact large (by rw [empty]; rfl)
  rw [UInt64.toNat_shiftRight]
  exact Nat.div_lt_self (Nat.pos_of_ne_zero positive) (by decide)

def myCalcDelta (deltaExec weight : UInt64) (invWeight : UInt32) : UInt64 :=
  let fact := weight
  let fact := fact.toUInt32.toUInt64 * invWeight.toUInt64
  let (fact, shift) := normalise fact 32
  (deltaExec * fact) >>> UInt64.ofNat shift.toNat

/-! ## The factor in full width -/

def shifts (factor : Nat) : Nat := factor.size - 32

theorem fits_iff (factor k : Nat) : factor / 2 ^ k < 2 ^ 32 ↔ shifts factor ≤ k := by
  rw [Nat.div_lt_iff_lt_mul (Nat.two_pow_pos k), ← pow_add, ← Nat.size_le, shifts]
  omega

def normalFactor (factor : Nat) : Nat := factor / 2 ^ shifts factor

def normalShift (factor : Nat) : Nat := 32 - shifts factor

def scaled (deltaExec factor : Nat) : Nat := deltaExec * normalFactor factor / 2 ^ normalShift factor

/-! ## The loop computes the factor -/

theorem shifts_half {factor : Nat} (large : 2 ^ 32 ≤ factor) : shifts factor = shifts (factor / 2) + 1 := by
  have bound : ∀ k, shifts factor ≤ k + 1 ↔ shifts (factor / 2) ≤ k := by
    intro k
    rw [← fits_iff, ← fits_iff, Nat.div_div_eq_div_mul, pow_succ']
  have positive : ¬ shifts factor ≤ 0 := by
    rw [← fits_iff]
    omega
  have upper := (bound (shifts (factor / 2))).mpr le_rfl
  have lower := (bound (shifts factor - 1)).mp (by omega)
  omega

theorem high_word_eq_zero_iff (fact : UInt64) : fact >>> 32 = 0 ↔ fact.toNat < 2 ^ 32 := by
  rw [← UInt64.toNat_inj, UInt64.toNat_shiftRight]
  simp [Nat.shiftRight_eq_div_pow]

theorem normalise_eq (fact : UInt64) (shift : Int) :
    (normalise fact shift).1.toNat = normalFactor fact.toNat ∧
      (normalise fact shift).2 = shift - shifts fact.toNat := by
  induction fact, shift using normalise.induct with
  | case1 fact shift large ih =>
      have high : 2 ^ 32 ≤ fact.toNat := by
        rw [Ne, high_word_eq_zero_iff] at large
        omega
      have half : (fact >>> 1).toNat = fact.toNat / 2 := by
        rw [UInt64.toNat_shiftRight]
        rfl
      have more := shifts_half high
      rw [half] at ih
      rw [normalise, if_pos large]
      constructor
      · rw [ih.1, normalFactor, normalFactor, more, Nat.div_div_eq_div_mul, pow_succ']
      · rw [ih.2, more]
        push_cast
        ring
  | case2 fact shift small =>
      have low : shifts fact.toNat = 0 := by
        rw [Ne, not_not, high_word_eq_zero_iff] at small
        have done := (fits_iff fact.toNat 0).mp (by simpa using small)
        omega
      rw [normalise, if_neg small, normalFactor, low]
      simp

theorem shifts_le (factor : Nat) (word : factor < 2 ^ 64) : shifts factor ≤ 32 := by
  rw [← fits_iff]
  omega

theorem product_lt (weight invWeight : UInt32) : weight.toNat * invWeight.toNat < 2 ^ 64 := by
  calc weight.toNat * invWeight.toNat
    _ < 2 ^ 32 * 2 ^ 32 := Nat.mul_lt_mul'' weight.toNat_lt invWeight.toNat_lt
    _ = 2 ^ 64 := by norm_num

theorem product_toNat (weight invWeight : UInt32) :
    (weight.toUInt64.toUInt32.toUInt64 * invWeight.toUInt64).toNat =
      weight.toNat * invWeight.toNat := by
  rw [UInt64.toNat_mul, UInt32.toNat_toUInt64, UInt32.toNat_toUInt64, UInt32.toUInt32_toUInt64]
  exact Nat.mod_eq_of_lt (product_lt weight invWeight)

theorem myCalcDelta_toNat (deltaExec : UInt64) (weight invWeight : UInt32) :
    (myCalcDelta deltaExec weight.toUInt64 invWeight).toNat =
      deltaExec.toNat * normalFactor (weight.toNat * invWeight.toNat) % 2 ^ 64 /
        2 ^ normalShift (weight.toNat * invWeight.toNat) := by
  obtain ⟨fact, shift⟩ := normalise_eq (weight.toUInt64.toUInt32.toUInt64 * invWeight.toUInt64) 32
  have small := shifts_le _ (product_lt weight invWeight)
  rw [product_toNat] at fact shift
  have amount : (normalise (weight.toUInt64.toUInt32.toUInt64 * invWeight.toUInt64) 32).2.toNat =
      normalShift (weight.toNat * invWeight.toNat) := by
    rw [shift, normalShift]
    omega
  have below : normalShift (weight.toNat * invWeight.toNat) < 64 := by
    unfold normalShift
    omega
  rw [myCalcDelta]
  simp only
  rw [UInt64.toNat_shiftRight, UInt64.toNat_mul, fact, amount, UInt64.toNat_ofNat',
    Nat.shiftRight_eq_div_pow]
  rw [Nat.mod_eq_of_lt (a := normalShift _) (by omega), Nat.mod_eq_of_lt below]

/-- The kernel's `__calc_delta`, in which no bit of the product is lost. -/
def Exact (deltaExec : UInt64) (weight invWeight : UInt32) : Prop :=
  (myCalcDelta deltaExec weight.toUInt64 invWeight).toNat =
    scaled deltaExec.toNat (weight.toNat * invWeight.toNat) % 2 ^ 64

theorem myCalcDelta_exact_iff (deltaExec : UInt64) (weight invWeight : UInt32) :
    Exact deltaExec weight invWeight ↔
      2 ^ normalShift (weight.toNat * invWeight.toNat) ∣
        deltaExec.toNat * normalFactor (weight.toNat * invWeight.toNat) / 2 ^ 64 := by
  have fits : normalShift (weight.toNat * invWeight.toNat) ≤ 64 := by
    unfold normalShift
    omega
  rw [Exact, myCalcDelta_toNat, scaled]
  exact cut_shift_eq_iff fits

theorem myCalcDelta_loses_long_delta : ¬ Exact 0x200000000 1024 4194304 := by
  have one : shifts (1024 * 4194304) = 1 := by
    rw [shifts, show 1024 * 4194304 = 2 ^ 32 by norm_num, Nat.size_pow]
  have factor : (1024 : UInt32).toNat * (4194304 : UInt32).toNat = 1024 * 4194304 := rfl
  rw [Exact, myCalcDelta_toNat, factor, scaled, normalFactor, normalShift, one]
  decide

/-! ## Accuracy -/

def finalShift (weight invWeight : UInt32) : Int :=
  (normalise (weight.toUInt64.toUInt32.toUInt64 * invWeight.toUInt64) 32).2

/-- `deltaExec * weight * invWeight / 2 ^ 32`, without any rounding. -/
def weighted (deltaExec : UInt64) (weight invWeight : UInt32) : ℚ :=
  deltaExec.toNat * weight.toNat * invWeight.toNat / 2 ^ 32

structure Accurate (deltaExec : UInt64) (weight invWeight : UInt32) : Prop where
  shift_nonneg : 0 ≤ finalShift weight invWeight
  shift_le : finalShift weight invWeight ≤ 32
  lower : weighted deltaExec weight invWeight * (1 - 1 / 2 ^ 31) - 1 <
    (myCalcDelta deltaExec weight.toUInt64 invWeight).toNat
  upper : ((myCalcDelta deltaExec weight.toUInt64 invWeight).toNat : ℚ) ≤
    weighted deltaExec weight invWeight

/-- Once a bit has been shifted out the factor has 32 bits. -/
theorem le_normalFactor {factor : Nat} (shifted : shifts factor ≠ 0) :
    2 ^ 31 ≤ normalFactor factor := by
  have early : ¬ factor / 2 ^ (shifts factor - 1) < 2 ^ 32 := by
    rw [fits_iff]
    omega
  have twice : factor / 2 ^ shifts factor = factor / 2 ^ (shifts factor - 1) / 2 := by
    rw [Nat.div_div_eq_div_mul, ← pow_succ, Nat.sub_add_cancel (Nat.pos_of_ne_zero shifted)]
  rw [normalFactor, twice]
  omega

theorem normalFactor_accurate (factor : Nat) :
    (factor : ℚ) / 2 ^ shifts factor * (1 - 1 / 2 ^ 31) ≤ normalFactor factor := by
  have floor := lt_cast_div_pow_add_one factor (shifts factor)
  rw [← normalFactor] at floor
  by_cases shifted : shifts factor = 0
  · have exact : normalFactor factor = factor := by rw [normalFactor, shifted, pow_zero, Nat.div_one]
    have nonneg : (0 : ℚ) ≤ factor := Nat.cast_nonneg factor
    rw [shifted, exact, pow_zero, div_one]
    linarith
  · have large : (2 ^ 31 : ℚ) ≤ normalFactor factor := by exact_mod_cast le_normalFactor shifted
    have scale : (factor : ℚ) / 2 ^ shifts factor * (1 - 1 / 2 ^ 31) ≤
        (normalFactor factor + 1) * (1 - 1 / 2 ^ 31) :=
      mul_le_mul_of_nonneg_right floor.le (by norm_num)
    linarith

theorem normalise_shift (weight invWeight : UInt32) :
    finalShift weight invWeight = 32 - shifts (weight.toNat * invWeight.toNat) := by
  rw [finalShift, (normalise_eq _ 32).2, product_toNat]

theorem normalFactor_lt (factor : Nat) : normalFactor factor < 2 ^ 32 :=
  (fits_iff factor (shifts factor)).mpr le_rfl

theorem myCalcDelta_eq_mulShift (deltaExec : UInt64) (weight invWeight : UInt32)
    (small : deltaExec.toNat < 2 ^ 32) :
    (myCalcDelta deltaExec weight.toUInt64 invWeight).toNat =
      mulShift (normalShift (weight.toNat * invWeight.toNat)) deltaExec.toNat
        (normalFactor (weight.toNat * invWeight.toNat)) := by
  have fits : deltaExec.toNat * normalFactor (weight.toNat * invWeight.toNat) < 2 ^ 32 * 2 ^ 32 :=
    Nat.mul_lt_mul'' small (normalFactor_lt _)
  rw [myCalcDelta_toNat, Nat.mod_eq_of_lt (by omega), mulShift]

theorem myCalcDelta_accurate (deltaExec : UInt64) (weight invWeight : UInt32)
    (small : deltaExec.toNat < 2 ^ 32) : Accurate deltaExec weight invWeight := by
  let factor := weight.toNat * invWeight.toNat
  have few : shifts factor ≤ 32 := shifts_le factor (product_lt weight invWeight)
  have shift : finalShift weight invWeight = 32 - shifts factor := normalise_shift weight invWeight
  have value := myCalcDelta_eq_mulShift deltaExec weight invWeight small
  have delta_nonneg : (0 : ℚ) ≤ deltaExec.toNat := Nat.cast_nonneg _
  -- the factor that the loop leaves, against the one before the loop
  have whole : weighted deltaExec weight invWeight =
      deltaExec.toNat * ((factor : ℚ) / 2 ^ shifts factor / 2 ^ normalShift factor) := by
    have split : (2 : ℚ) ^ 32 = 2 ^ shifts factor * 2 ^ normalShift factor := by
      rw [← pow_add, normalShift, Nat.add_sub_cancel' few]
    rw [weighted, split, Nat.cast_mul]
    ring
  have below : (normalFactor factor : ℚ) / 2 ^ normalShift factor ≤
      (factor : ℚ) / 2 ^ shifts factor / 2 ^ normalShift factor :=
    div_le_div_of_nonneg_right (cast_div_pow_le factor (shifts factor)) (by positivity)
  have above : (factor : ℚ) / 2 ^ shifts factor / 2 ^ normalShift factor * (1 - 1 / 2 ^ 31) ≤
      (normalFactor factor : ℚ) / 2 ^ normalShift factor := by
    rw [div_mul_eq_mul_div]
    exact div_le_div_of_nonneg_right (normalFactor_accurate factor) (by positivity)
  constructor
  · omega
  · omega
  · have rounded := lt_cast_mulShift_add_one (normalShift factor) deltaExec.toNat (normalFactor factor)
    have scaled := mul_le_mul_of_nonneg_left above delta_nonneg
    rw [value, whole]
    linarith
  · have rounded := cast_mulShift_le (normalShift factor) deltaExec.toNat (normalFactor factor)
    have scaled := mul_le_mul_of_nonneg_left below delta_nonneg
    rw [value, whole]
    linarith

theorem myCalcDelta_accurate_nice : Accurate 10000000 1024 5237765 :=
  myCalcDelta_accurate 10000000 1024 5237765 (by decide)

end LinuxInterview.Arithmetic
