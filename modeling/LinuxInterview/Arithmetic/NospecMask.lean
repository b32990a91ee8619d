import LinuxInterview.Library.Words

/-!
# The two masks of `nospec_mask.c`
-/

namespace LinuxInterview.Arithmetic
open Library

def bitsPerLong : Nat := 64

/-- The arithmetic shift spreads the sign bit of the complement. -/
def maskC (index size : BitVec 64) : BitVec 64 :=
  (~~~(index ||| (size - 1#64 - index))).sshiftRight (bitsPerLong - 1)

/-- `cmp idx, sz` and `sbc mask, xzr, xzr`. -/
def maskAsm (idx sz : BitVec 64) : BitVec 64 := sbc 0#64 0#64 (cmpCarry idx sz)

def arrayIndexNospec (i s : BitVec 64) : BitVec 64 := i &&& maskAsm i s

def boundsMask (index size : BitVec 64) : BitVec 64 := if index < size then BitVec.allOnes 64 else 0#64

theorem maskAsm_eq (index size : BitVec 64) : maskAsm index size = boundsMask index size := by
  rw [maskAsm, cmpCarry_eq, sbc_zero, boundsMask]
  by_cases inside : index < size
  · simp [inside, BitVec.not_le.mpr inside]
  · simp [inside, BitVec.not_lt.mp inside]

theorem arrayIndexNospec_lt {size : BitVec 64} (nonempty : 0#64 < size) (index : BitVec 64) :
    arrayIndexNospec index size < size := by
  rw [arrayIndexNospec, maskAsm_eq, boundsMask]
  split
  · rwa [BitVec.and_allOnes]
  · rwa [BitVec.and_zero]

theorem sshiftRight_sign (x : BitVec 64) :
    x.sshiftRight (bitsPerLong - 1) = if x.msb then BitVec.allOnes 64 else 0#64 := by
  have spread : ∀ i < 64, (x.sshiftRight (bitsPerLong - 1)).getLsbD i = x.msb := by
    intro i below
    rw [BitVec.getLsbD_sshiftRight]
    by_cases first : i = 0
    · subst first
      rw [BitVec.msb_eq_getLsbD_last]
      simp [bitsPerLong]
    · have inside : ¬ 64 ≤ i := by omega
      have past : ¬ bitsPerLong - 1 + i < 64 := by unfold bitsPerLong; omega
      simp [inside, past]
  apply BitVec.eq_of_getLsbD_eq
  intro i below
  rw [spread i below]
  cases x.msb with
  | false => simp
  | true => rw [if_pos rfl, BitVec.getLsbD_allOnes, decide_eq_true below]

theorem maskC_eq (index size : BitVec 64) :
    maskC index size = if index.msb = false ∧ (size - 1#64 - index).msb = false
      then BitVec.allOnes 64 else 0#64 := by
  rw [maskC, sshiftRight_sign, BitVec.msb_not, BitVec.msb_or]
  cases index.msb <;> cases (size - 1#64 - index).msb <;> rfl

/-- The sign bits hold the answer unless an index in bounds, or its distance to the end, reaches 2^63. -/
theorem signs_clear_iff (index size : BitVec 64) :
    (index.msb = false ∧ (size - 1#64 - index).msb = false) ↔
      index < size ∧ index.toNat < 2 ^ 63 ∧ size.toNat - index.toNat ≤ 2 ^ 63 := by
  have indexBound := index.isLt
  have sizeBound := size.isLt
  rw [BitVec.msb_eq_false_iff_two_mul_lt, BitVec.msb_eq_false_iff_two_mul_lt, BitVec.lt_def,
    BitVec.toNat_sub, BitVec.toNat_sub]
  simp only [BitVec.toNat_ofNat]
  omega

/-- The two masks tell an index in bounds, and the masked index is in bounds. -/
structure MasksAgree (index size : BitVec 64) : Prop where
  same : maskC index size = maskAsm index size
  asm : maskAsm index size = boundsMask index size
  c : maskC index size = boundsMask index size
  clamped : 0#64 < size → arrayIndexNospec index size < size

theorem masks_agree_iff (index size : BitVec 64) :
    MasksAgree index size ↔
      (index < size → index.toNat < 2 ^ 63 ∧ size.toNat - index.toNat ≤ 2 ^ 63) := by
  have exactC : maskC index size = boundsMask index size ↔
      (index < size → index.toNat < 2 ^ 63 ∧ size.toNat - index.toNat ≤ 2 ^ 63) := by
    simp only [maskC_eq, signs_clear_iff, boundsMask]
    by_cases inside : index < size
    · simp [inside]
    · simp [inside]
  rw [← exactC]
  constructor
  · exact MasksAgree.c
  · intro c
    exact ⟨c.trans (maskAsm_eq index size).symm, maskAsm_eq index size, c,
      fun nonempty => arrayIndexNospec_lt nonempty index⟩

theorem maskC_refuses_first_index :
    ¬ MasksAgree 0#64 0x8000000000000001#64 := by
  intro agree
  exact absurd agree.same (by decide)

end LinuxInterview.Arithmetic
