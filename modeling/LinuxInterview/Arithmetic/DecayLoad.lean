import LinuxInterview.Library.FixedPoint

/-!
# The decay of `my_decay_load` in `sched_probe.c`
-/

namespace LinuxInterview.Arithmetic
open Library

/-- `2 ^ 32 * y ^ n` for the `n`-th entry, where `y ^ 32 = 1 / 2`. -/
def myYNInv : List UInt32 := [
  0xffffffff, 0xfa83b2da, 0xf5257d14, 0xefe4b99a, 0xeac0c6e6, 0xe5b906e6,
  0xe0ccdeeb, 0xdbfbb796, 0xd744fcc9, 0xd2a81d91, 0xce248c14, 0xc9b9bd85,
  0xc5672a10, 0xc12c4cc9, 0xbd08a39e, 0xb8fbaf46, 0xb504f333, 0xb123f581,
  0xad583ee9, 0xa9a15ab4, 0xa5fed6a9, 0xa2704302, 0x9ef5325f, 0x9b8d39b9,
  0x9837f050, 0x94f4efa8, 0x91c3d373, 0x8ea4398a, 0x8b95c1e3, 0x88980e80,
  0x85aac367, 0x82cd8698]

def myLoadAvgPeriod : UInt32 := 32

def mulU64U32Shr (a : UInt64) (mul : UInt32) (shift : Nat) : UInt64 :=
  UInt64.ofNat (mulShift shift a.toNat mul.toNat)

def myDecayLoad (val n : UInt64) : UInt64 :=
  if n > (myLoadAvgPeriod * 63).toUInt64 then 0
  else
    let localN := n.toUInt32
    let (val, localN) :=
      if localN ≥ myLoadAvgPeriod then
        (val >>> (localN / myLoadAvgPeriod).toUInt64, localN % myLoadAvgPeriod)
      else (val, localN)
    mulU64U32Shr val (myYNInv.getD localN.toNat 0) 32

/-! ## The decay in full width -/

def fraction (i : Nat) : Nat := (myYNInv.getD i 0).toNat

def decayed (val n : Nat) : Nat :=
  if 2016 < n then 0 else mulShift 32 (val / 2 ^ (n / 32)) (fraction (n % 32))

theorem fraction_le (i : Nat) : fraction i ≤ 2 ^ 32 := (myYNInv.getD i 0).toNat_lt.le

theorem mulU64U32Shr_toNat (a : UInt64) (mul : UInt32) :
    (mulU64U32Shr a mul 32).toNat = mulShift 32 a.toNat mul.toNat := by
  have word : mulShift 32 a.toNat mul.toNat < 2 ^ 64 :=
    (mulShift_le mul.toNat_lt.le).trans_lt a.toNat_lt
  rw [mulU64U32Shr, UInt64.toNat_ofNat', Nat.mod_eq_of_lt word]

theorem myDecayLoad_toNat (val n : UInt64) : (myDecayLoad val n).toNat = decayed val.toNat n.toNat := by
  have cutOff : n > (myLoadAvgPeriod * 63).toUInt64 ↔ 2016 < n.toNat := UInt64.lt_iff_toNat_lt
  unfold myDecayLoad decayed
  by_cases late : 2016 < n.toNat
  · rw [if_pos (cutOff.mpr late), if_pos late]
    rfl
  · rw [if_neg (mt cutOff.mp late), if_neg late]
    have localN : n.toUInt32.toNat = n.toNat := by
      rw [UInt64.toNat_toUInt32]
      exact Nat.mod_eq_of_lt (by omega)
    have halves : n.toUInt32 ≥ myLoadAvgPeriod ↔ 32 ≤ n.toNat := by
      rw [← localN]
      exact UInt32.le_iff_toNat_le
    by_cases long : 32 ≤ n.toNat
    · have few : n.toNat / 32 % 64 = n.toNat / 32 := Nat.mod_eq_of_lt (by omega)
      simp only [if_pos (halves.mpr long)]
      rw [mulU64U32Shr_toNat, UInt64.toNat_shiftRight, UInt32.toNat_toUInt64, UInt32.toNat_div,
        UInt32.toNat_mod, localN, show myLoadAvgPeriod.toNat = 32 from rfl, few,
        Nat.shiftRight_eq_div_pow]
      rfl
    · have early : n.toNat < 32 := by omega
      simp only [if_neg (mt halves.mp long)]
      rw [mulU64U32Shr_toNat, localN, Nat.div_eq_of_lt early, Nat.mod_eq_of_lt early, pow_zero,
        Nat.div_one]
      rfl

/-! ## Order -/

theorem decayed_mono {val val' : Nat} (larger : val ≤ val') (n : Nat) :
    decayed val n ≤ decayed val' n := by
  unfold decayed
  split
  · exact le_rfl
  · exact mulShift_mono (Nat.div_le_div_right larger) le_rfl

theorem decayed_le (val n : Nat) : decayed val n ≤ val := by
  unfold decayed
  split
  · exact Nat.zero_le val
  · exact (mulShift_le (fraction_le _)).trans (Nat.div_le_self _ _)

theorem fraction_succ_le : ∀ i < 31, fraction (i + 1) ≤ fraction i := by decide

/-- At the end of a period the value is halved, and the last entry is more than a half. -/
theorem mulShift_half_le (val : Nat) :
    mulShift 32 (val / 2) (fraction 0) ≤ mulShift 32 val (fraction 31) := by
  apply Nat.div_le_div_right
  have half : fraction 0 ≤ 2 * fraction 31 := by decide
  calc val / 2 * fraction 0
    _ ≤ val / 2 * (2 * fraction 31) := Nat.mul_le_mul_left _ half
    _ = val / 2 * 2 * fraction 31 := by ring
    _ ≤ val * fraction 31 := Nat.mul_le_mul_right _ (Nat.div_mul_le_self val 2)

theorem decayed_succ_le (val n : Nat) : decayed val (n + 1) ≤ decayed val n := by
  unfold decayed
  by_cases late : 2016 < n + 1
  · rw [if_pos late]
    exact Nat.zero_le _
  · rw [if_neg late, if_neg (by omega)]
    by_cases last : n % 32 = 31
    · have period : (n + 1) / 32 = n / 32 + 1 := by omega
      have first : (n + 1) % 32 = 0 := by omega
      rw [period, first, last, pow_succ, ← Nat.div_div_eq_div_mul]
      exact mulShift_half_le _
    · have period : (n + 1) / 32 = n / 32 := by omega
      have next : (n + 1) % 32 = n % 32 + 1 := by omega
      rw [period, next]
      exact mulShift_mono le_rfl (fraction_succ_le _ (by omega))

theorem decayed_antitone (val : Nat) : Antitone (decayed val) :=
  antitone_nat_of_succ_le (decayed_succ_le val)

structure Ordered (decay : UInt64 → UInt64 → UInt64) : Prop where
  mono : ∀ val val' n, val ≤ val' → decay val n ≤ decay val' n
  antitone : ∀ val n n', n ≤ n' → decay val n' ≤ decay val n
  le_self : ∀ val n, decay val n ≤ val

theorem myDecayLoad_ordered : Ordered myDecayLoad := by
  constructor
  · intro val val' n larger
    rw [UInt64.le_iff_toNat_le, myDecayLoad_toNat, myDecayLoad_toNat]
    exact decayed_mono (UInt64.le_iff_toNat_le.mp larger) _
  · intro val n n' later
    rw [UInt64.le_iff_toNat_le, myDecayLoad_toNat, myDecayLoad_toNat]
    exact decayed_antitone _ (UInt64.le_iff_toNat_le.mp later)
  · intro val n
    rw [UInt64.le_iff_toNat_le, myDecayLoad_toNat]
    exact decayed_le _ _

/-! ## Two decays in a row -/

/-- The part of a value that `n` periods leave, without the rounding of the value. -/
def left (n : Nat) : ℚ := fraction (n % 32) / 2 ^ 32 / 2 ^ (n / 32)

theorem left_nonneg (n : Nat) : 0 ≤ left n := by
  unfold left
  positivity

theorem left_le (n : Nat) : left n ≤ 1 / 2 ^ (n / 32) := by
  have entry : (fraction (n % 32) : ℚ) ≤ 2 ^ 32 := by exact_mod_cast fraction_le (n % 32)
  have part : (fraction (n % 32) : ℚ) / 2 ^ 32 ≤ 1 := (div_le_one (by positivity)).mpr entry
  exact div_le_div_of_nonneg_right part (by positivity)

theorem left_le_one (n : Nat) : left n ≤ 1 := by
  have periods : (1 : ℚ) / 2 ^ (n / 32) ≤ 1 := by
    rw [div_le_one (by positivity)]
    exact one_le_pow₀ (by norm_num)
  exact (left_le n).trans periods

theorem decayed_le_left (val n : Nat) : (decayed val n : ℚ) ≤ val * left n := by
  unfold decayed
  split
  · rw [Nat.cast_zero]
    exact mul_nonneg (Nat.cast_nonneg val) (left_nonneg n)
  · calc (mulShift 32 (val / 2 ^ (n / 32)) (fraction (n % 32)) : ℚ)
      _ ≤ (val / 2 ^ (n / 32) : Nat) * (fraction (n % 32) / 2 ^ 32) := cast_mulShift_le _ _ _
      _ ≤ (val / 2 ^ (n / 32)) * (fraction (n % 32) / 2 ^ 32) :=
          mul_le_mul_of_nonneg_right (cast_div_pow_le val _) (by positivity)
      _ = val * left n := by
          unfold left
          ring

theorem left_lt_decayed (val : Nat) {n : Nat} (early : n ≤ 2016) : val * left n < decayed val n + 2 := by
  have part : (fraction (n % 32) : ℚ) / 2 ^ 32 ≤ 1 := by
    rw [div_le_one (by positivity)]
    exact_mod_cast fraction_le (n % 32)
  have shifted := lt_cast_div_pow_add_one val (n / 32)
  have rounded := lt_cast_mulShift_add_one 32 (val / 2 ^ (n / 32)) (fraction (n % 32))
  rw [decayed, if_neg (by omega)]
  calc (val : ℚ) * left n
    _ = (val / 2 ^ (n / 32)) * (fraction (n % 32) / 2 ^ 32) := by
        unfold left
        ring
    _ ≤ ((val / 2 ^ (n / 32) : Nat) + 1) * (fraction (n % 32) / 2 ^ 32) :=
        mul_le_mul_of_nonneg_right shifted.le (by positivity)
    _ < mulShift 32 (val / 2 ^ (n / 32)) (fraction (n % 32)) + 2 := by linarith

theorem left_lt_decayed_of_lt (val : Nat) {n : Nat} (first : n < 32) :
    val * left n < decayed val n + 1 := by
  have rounded := lt_cast_mulShift_add_one 32 val (fraction n)
  rw [decayed, if_neg (by omega), left, Nat.div_eq_of_lt first, Nat.mod_eq_of_lt first, pow_zero,
    pow_zero, Nat.div_one, div_one]
  exact rounded

/-- The table is a table of powers of `y`, up to the rounding of its entries. -/
theorem fraction_mul : ∀ i < 32, ∀ j < 32,
    fraction i * fraction j ≤ fraction ((i + j) % 32) * 2 ^ (32 - (i + j) / 32) + 2 ^ 32 ∧
      fraction ((i + j) % 32) * 2 ^ (32 - (i + j) / 32) ≤
        fraction i * fraction j + 3 * 2 ^ 32 := by decide +kernel

theorem left_mul_left (a b : Nat) :
    left a * left b = (fraction (a % 32) * fraction (b % 32) : Nat) / 2 ^ 64 / 2 ^ (a / 32 + b / 32) := by
  unfold left
  push_cast
  ring

theorem left_add (a b : Nat) :
    left (a + b) = (fraction ((a % 32 + b % 32) % 32) * 2 ^ (32 - (a % 32 + b % 32) / 32) : Nat) /
      2 ^ 64 / 2 ^ (a / 32 + b / 32) := by
  let carry := (a % 32 + b % 32) / 32
  have rest : (a + b) % 32 = (a % 32 + b % 32) % 32 := by omega
  have periods : (a + b) / 32 = a / 32 + b / 32 + carry := by omega
  have split : (2 : ℚ) ^ 32 = 2 ^ (32 - carry) * 2 ^ carry := by
    rw [← pow_add, Nat.sub_add_cancel (by omega)]
  have word : (2 : ℚ) ^ 64 = 2 ^ 32 * 2 ^ 32 := by norm_num
  unfold left
  rw [rest, periods, word]
  push_cast
  rw [pow_add _ (a / 32 + b / 32)]
  change _ = (fraction ((a % 32 + b % 32) % 32) : ℚ) * 2 ^ (32 - carry) / (2 ^ 32 * 2 ^ 32) /
    2 ^ (a / 32 + b / 32)
  nth_rewrite 2 [split]
  field_simp

theorem share_le {val x y c : Nat} (small : val < 2 ^ 32) (close : x ≤ y + c * 2 ^ 32) (k : Nat) :
    (val : ℚ) * (x / 2 ^ 64 / 2 ^ k) ≤ val * (y / 2 ^ 64 / 2 ^ k) + c / 2 ^ k := by
  have whole : val * x ≤ val * y + c * 2 ^ 64 := by
    calc val * x
      _ ≤ val * (y + c * 2 ^ 32) := Nat.mul_le_mul_left val close
      _ = val * y + val * (c * 2 ^ 32) := Nat.mul_add _ _ _
      _ ≤ val * y + 2 ^ 32 * (c * 2 ^ 32) := Nat.add_le_add_left (Nat.mul_le_mul_right _ small.le) _
      _ = val * y + c * 2 ^ 64 := by ring
  have cast : (val * x : ℚ) ≤ val * y + c * 2 ^ 64 := by exact_mod_cast whole
  have positive : (0 : ℚ) < 2 ^ 64 * 2 ^ k := by positivity
  calc (val : ℚ) * (x / 2 ^ 64 / 2 ^ k)
    _ = val * x / (2 ^ 64 * 2 ^ k) := by field_simp
    _ ≤ (val * y + c * 2 ^ 64) / (2 ^ 64 * 2 ^ k) := div_le_div_of_nonneg_right cast positive.le
    _ = val * (y / 2 ^ 64 / 2 ^ k) + c / 2 ^ k := by field_simp

theorem left_mul_left_le {val : Nat} (small : val < 2 ^ 32) (a b : Nat) :
    val * (left a * left b) ≤ val * left (a + b) + 1 := by
  obtain ⟨close, _⟩ := fraction_mul (a % 32) (Nat.mod_lt a (by decide)) (b % 32) (Nat.mod_lt b (by decide))
  rw [← Nat.one_mul (2 ^ 32)] at close
  have share := share_le small close (a / 32 + b / 32)
  have periods : (1 : ℚ) / 2 ^ (a / 32 + b / 32) ≤ 1 := by
    rw [div_le_one (by positivity)]
    exact one_le_pow₀ (by norm_num)
  rw [left_mul_left, left_add]
  push_cast at share ⊢
  linarith

theorem left_add_le {val : Nat} (small : val < 2 ^ 32) (a b : Nat) :
    val * left (a + b) ≤ val * (left a * left b) + 3 / 2 ^ (a / 32 + b / 32) := by
  obtain ⟨_, close⟩ := fraction_mul (a % 32) (Nat.mod_lt a (by decide)) (b % 32) (Nat.mod_lt b (by decide))
  have share := share_le small close (a / 32 + b / 32)
  rw [left_mul_left, left_add]
  exact_mod_cast share

theorem twice_le_left (val a b : Nat) : (decayed (decayed val a) b : ℚ) ≤ val * (left a * left b) := by
  calc (decayed (decayed val a) b : ℚ)
    _ ≤ decayed val a * left b := decayed_le_left _ b
    _ ≤ val * left a * left b := mul_le_mul_of_nonneg_right (decayed_le_left val a) (left_nonneg b)
    _ = val * (left a * left b) := mul_assoc _ _ _

theorem left_lt_twice (val : Nat) {a b : Nat} (earlyA : a ≤ 2016) (earlyB : b ≤ 2016) :
    val * (left a * left b) < decayed (decayed val a) b + 4 := by
  have first := mul_le_mul_of_nonneg_right (left_lt_decayed val earlyA).le (left_nonneg b)
  have second := left_lt_decayed (decayed val a) earlyB
  have part := left_le_one b
  linarith

theorem left_lt_twice_of_lt (val : Nat) {a b : Nat} (firstA : a < 32) (firstB : b < 32) :
    val * (left a * left b) < decayed (decayed val a) b + 2 := by
  have first := mul_le_mul_of_nonneg_right (left_lt_decayed_of_lt val firstA).le (left_nonneg b)
  have second := left_lt_decayed_of_lt (decayed val a) firstB
  have part := left_le_one b
  linarith

theorem decayed_once_le {val a b : Nat} (small : val < 2 ^ 32) (early : a + b ≤ 2016) :
    decayed val (a + b) ≤ decayed (decayed val a) b + 5 := by
  have once := decayed_le_left val (a + b)
  have close := left_add_le small a b
  have bound : (decayed val (a + b) : ℚ) < decayed (decayed val a) b + 6 := by
    -- without a whole period nothing is lost to the shifts, and with one the table errs by half
    by_cases whole : a / 32 + b / 32 = 0
    · have twice := left_lt_twice_of_lt val (a := a) (b := b) (by omega) (by omega)
      rw [whole, pow_zero, div_one] at close
      linarith
    · have twice := left_lt_twice val (a := a) (b := b) (by omega) (by omega)
      have half : (3 : ℚ) / 2 ^ (a / 32 + b / 32) ≤ 3 / 2 := by
        apply div_le_div_of_nonneg_left (by norm_num) (by norm_num)
        exact le_self_pow₀ (by norm_num) whole
      linarith
  have strict : decayed val (a + b) < decayed (decayed val a) b + 6 := by exact_mod_cast bound
  omega

theorem decayed_twice_le {val a b : Nat} (small : val < 2 ^ 32) (early : a + b ≤ 2016) :
    decayed (decayed val a) b ≤ decayed val (a + b) + 2 := by
  have once := left_lt_decayed val early
  have close := left_mul_left_le small a b
  have twice := twice_le_left val a b
  have bound : (decayed (decayed val a) b : ℚ) < decayed val (a + b) + 3 := by linarith
  have strict : decayed (decayed val a) b < decayed val (a + b) + 3 := by exact_mod_cast bound
  omega

/-- Past the cut-off two decays leave nothing either. -/
theorem decayed_twice_eq_zero {val a b : Nat} (small : val < 2 ^ 32) (late : 2016 < a + b) :
    decayed (decayed val a) b = 0 := by
  have word : val < 2 ^ (a / 32 + b / 32) :=
    small.trans_le (Nat.pow_le_pow_right (by decide) (by omega))
  have cast : (val : ℚ) < 2 ^ (a / 32 + b / 32) := by exact_mod_cast word
  have bound : (decayed (decayed val a) b : ℚ) < 1 := by
    calc (decayed (decayed val a) b : ℚ)
      _ ≤ val * (left a * left b) := twice_le_left val a b
      _ ≤ val * (1 / 2 ^ (a / 32) * (1 / 2 ^ (b / 32))) := by
          apply mul_le_mul_of_nonneg_left _ (Nat.cast_nonneg val)
          exact mul_le_mul (left_le a) (left_le b) (left_nonneg b) (by positivity)
      _ = val / 2 ^ (a / 32 + b / 32) := by
          rw [pow_add]
          field_simp
      _ < 1 := (div_lt_one (by positivity)).mpr cast
  have strict : decayed (decayed val a) b < 1 := by exact_mod_cast bound
  omega

/-- `n` is the sum of `a` and `b` as numbers: all three are arguments. -/
theorem myDecayLoad_twice (val a b n : UInt64) (small : val.toNat < 2 ^ 32)
    (total : n.toNat = a.toNat + b.toNat) :
    |((myDecayLoad (myDecayLoad val a) b).toNat : Int) - (myDecayLoad val n).toNat| ≤ 5 := by
  rw [myDecayLoad_toNat, myDecayLoad_toNat, myDecayLoad_toNat, total]
  by_cases late : 2016 < a.toNat + b.toNat
  · rw [decayed_twice_eq_zero small late, decayed, if_pos late]
    decide
  · have lower := decayed_once_le small (Nat.le_of_not_lt late)
    have upper := decayed_twice_le small (Nat.le_of_not_lt late)
    rw [abs_le]
    omega

theorem myDecayLoad_twice_across_period :
    |((myDecayLoad (myDecayLoad 0xffffffff 20) 20).toNat : Int) -
      (myDecayLoad 0xffffffff 40).toNat| ≤ 5 :=
  myDecayLoad_twice 0xffffffff 20 20 40 (by decide) (by decide)

end LinuxInterview.Arithmetic
