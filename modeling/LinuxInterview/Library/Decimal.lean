import LinuxInterview.Library.Script
import LinuxInterview.Library.Text
import Mathlib.Data.Int.Log
import Mathlib.Algebra.Order.Floor.Semifield

/-!
# Decimal numerals and the doubles they are read as

The decimal digits of every script, as `\d`, `int` and `float` know them, and the rounding of a
rational number to a double.
-/

namespace LinuxInterview.Library

/-! ## Digits -/

/-- The zeros of the scripts that have decimal digits; the other nine follow each. -/
def zeros : List Nat := [0x30, 0x660, 0x6f0, 0x7c0, 0x966, 0x9e6, 0xa66, 0xae6, 0xb66, 0xbe6, 0xc66,
  0xce6, 0xd66, 0xde6, 0xe50, 0xed0, 0xf20, 0x1040, 0x1090, 0x17e0, 0x1810, 0x1946, 0x19d0, 0x1a80,
  0x1a90, 0x1b50, 0x1bb0, 0x1c40, 0x1c50, 0xa620, 0xa8d0, 0xa900, 0xa9d0, 0xa9f0, 0xaa50, 0xabf0,
  0xff10, 0x104a0, 0x10d30, 0x11066, 0x110f0, 0x11136, 0x111d0, 0x112f0, 0x11450, 0x114d0, 0x11650,
  0x116c0, 0x11730, 0x118e0, 0x11950, 0x11c50, 0x11d50, 0x11da0, 0x16a60, 0x16ac0, 0x16b50, 0x1d7ce,
  0x1d7d8, 0x1d7e2, 0x1d7ec, 0x1d7f6, 0x1e140, 0x1e2f0, 0x1e950, 0x1fbf0]

def zeroOf (c : Char) : Option Nat := zeros.find? fun z => z ≤ c.toNat ∧ c.toNat < z + 10

def isDecimal (c : Char) : Bool := (zeroOf c).isSome

def decimalValue (c : Char) : Except PyError Nat :=
  match zeroOf c with
  | some z => .ok (c.toNat - z)
  | none => .error .valueError

def decimalNumber (digits : Text) : Except PyError Nat :=
  digits.foldlM (fun n c => return 10 * n + (← decimalValue c)) 0

theorem decimalNumber_toDigits (n : Nat) : decimalNumber (Nat.toDigits 10 n) = .ok n :=
  foldlM_toDigits (by decide) (by decide) n

theorem isDecimal_of_isDigit {c : Char} (digit : c.isDigit = true) : isDecimal c = true := by
  have low : 0x30 ≤ c.toNat ∧ c.toNat < 0x30 + 10 := by
    simp only [Char.isDigit, Bool.and_eq_true, decide_eq_true_eq, UInt32.le_iff_toNat_le] at digit
    exact ⟨digit.1, Nat.lt_succ_of_le digit.2⟩
  simp [isDecimal, zeroOf, zeros, low]

/-! ## Doubles -/

def nearestEven (x : ℚ) : Nat :=
  let n := ⌊x⌋₊
  let rest := x - n
  if rest < 1 / 2 then n else if 1 / 2 < rest then n + 1 else if n % 2 = 0 then n else n + 1

/-- The double that a number from zero on is rounded to, where the exponent has no upper bound. -/
def double (x : ℚ) : ℚ :=
  let e := max (Int.log 2 x - 52) (-1074)
  nearestEven (x / 2 ^ e) * 2 ^ e

theorem nearestEven_natCast (n : Nat) : nearestEven n = n := by
  have half : (0 : ℚ) < 1 / 2 := by norm_num
  simp only [nearestEven, Nat.floor_natCast, sub_self, if_pos half]

theorem double_eq_self {m : Nat} {k : ℤ} (significand : m < 2 ^ 53) (exponent : -1074 ≤ k) :
    double (m * 2 ^ k) = m * 2 ^ k := by
  rcases Nat.eq_zero_or_pos m with rfl | positive
  · have zero := nearestEven_natCast 0
    rw [Nat.cast_zero] at zero
    simp [double, zero]
  · have small : (m * 2 ^ k : ℚ) < 2 ^ (53 + k) := by
      rw [zpow_add₀ two_ne_zero]
      exact mul_lt_mul_of_pos_right (by exact_mod_cast significand) (by positivity)
    have log : Int.log 2 (m * 2 ^ k : ℚ) < 53 + k :=
      (Int.lt_zpow_iff_log_lt one_lt_two (by positivity)).mp (by exact_mod_cast small)
    obtain ⟨shift, aligned⟩ : ∃ shift : Nat, k = max (Int.log 2 (m * 2 ^ k : ℚ) - 52) (-1074) + shift :=
      ⟨(k - max (Int.log 2 (m * 2 ^ k : ℚ) - 52) (-1074)).toNat, by omega⟩
    rw [double]
    generalize max (Int.log 2 (m * 2 ^ k : ℚ) - 52) (-1074) = e at aligned
    have whole : (m * 2 ^ k : ℚ) / 2 ^ e = ((m * 2 ^ shift : Nat) : ℚ) := by
      rw [aligned, zpow_add₀ two_ne_zero, zpow_natCast]
      field_simp
      push_cast
      rfl
    simp only [whole, nearestEven_natCast]
    rw [← whole]
    field_simp

end LinuxInterview.Library
