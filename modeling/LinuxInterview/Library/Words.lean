import Mathlib.Tactic

/-!
# Machine words

Addition with a carry, fields that carry a sign, words made of bytes, and a product of which only the
low word is kept.
-/

namespace LinuxInterview.Library

/-! ## Addition with carry -/

def addWithCarry {w : Nat} (x y : BitVec w) (carry : Bool) : BitVec w × Bool :=
  (BitVec.ofNat w (x.toNat + y.toNat + carry.toNat), decide (2 ^ w ≤ x.toNat + y.toNat + carry.toNat))

/-- The carry flag of a comparison, set when the subtraction does not borrow. -/
def cmpCarry {w : Nat} (x y : BitVec w) : Bool := (addWithCarry x (~~~y) true).2

def sbc {w : Nat} (x y : BitVec w) (carry : Bool) : BitVec w := (addWithCarry x (~~~y) carry).1

variable {w : Nat}

theorem cmpCarry_eq (x y : BitVec w) : cmpCarry x y = decide (y ≤ x) := by
  have below := y.isLt
  unfold cmpCarry addWithCarry
  simp only [BitVec.toNat_not, Bool.toNat_true, BitVec.le_def]
  congr 1
  apply propext
  omega

theorem sbc_zero (carry : Bool) : sbc (0#w) (0#w) carry = if carry then 0#w else BitVec.allOnes w := by
  cases carry with
  | false =>
      apply BitVec.eq_of_toNat_eq
      simp [sbc, addWithCarry]
  | true =>
      apply BitVec.eq_of_toNat_eq
      have positive : 0 < 2 ^ w := Nat.two_pow_pos w
      rw [sbc, addWithCarry, BitVec.toNat_ofNat, BitVec.toNat_not, BitVec.toNat_ofNat]
      have whole : 0 % 2 ^ w + (2 ^ w - 1 - 0 % 2 ^ w) + true.toNat = 2 ^ w := by
        rw [Nat.zero_mod, Bool.toNat_true]
        omega
      rw [whole, Nat.mod_self, if_pos rfl, BitVec.toNat_ofNat, Nat.zero_mod]

/-! ## Signed fields -/

/-- The bits of a number that is shifted to the top of a word and back, sign and all. -/
theorem getLsbD_shiftLeft_sshiftRight (x : BitVec w) {left right i : Nat}
    (room : left < w) (bound : i < w) :
    ((x <<< left).sshiftRight right).getLsbD i =
      (decide (left ≤ i + right) && x.getLsbD (min (i + right) (w - 1) - left)) := by
  rw [BitVec.getLsbD_sshiftRight]
  by_cases inside : right + i < w
  · have position : min (i + right) (w - 1) = right + i := by omega
    simp only [inside, BitVec.getLsbD_shiftLeft, position]
    by_cases low : right + i < left
    · simp [low, show ¬ left ≤ i + right by omega]
    · simp [low, show ¬ w ≤ i by omega, show left ≤ i + right by omega]
  · have position : min (i + right) (w - 1) = w - 1 := by omega
    simp only [inside, BitVec.msb_eq_getLsbD_last, BitVec.getLsbD_shiftLeft, position]
    simp [show ¬ w ≤ i by omega, show left ≤ i + right by omega, show ¬ w - 1 < left by omega,
      show w - 1 < w by omega]

theorem getLsbD_signExtend_eq (x : BitVec w) {v i : Nat} (nonempty : 0 < w) (bound : i < v) :
    (x.signExtend v).getLsbD i = x.getLsbD (min i (w - 1)) := by
  rw [BitVec.getLsbD_signExtend, BitVec.msb_eq_getLsbD_last]
  by_cases inside : i < w
  · simp [bound, inside, show min i (w - 1) = i by omega]
  · simp [bound, inside, show min i (w - 1) = w - 1 by omega]

/-! ## Bytes -/

/-- The word that is put together from bytes, the last of them first. -/
def reassemble (w : Nat) (bytes : List (BitVec 8)) : BitVec w :=
  bytes.foldr (fun byte e => e <<< 8 ||| byte.setWidth w) 0#w

def littleEndian (w : Nat) (bytes : List (BitVec 8)) : BitVec w :=
  BitVec.ofNat w (Nat.ofDigits 256 (bytes.map BitVec.toNat))

theorem shiftLeft_or_byte (e : BitVec w) (byte : BitVec 8) :
    e <<< 8 ||| byte.setWidth w = BitVec.ofNat w (byte.toNat + 256 * e.toNat) := by
  have apart : e <<< 8 &&& byte.setWidth w = 0#w := by
    apply BitVec.eq_of_getLsbD_eq
    intro i bound
    rw [BitVec.getLsbD_and, BitVec.getLsbD_shiftLeft, BitVec.getLsbD_setWidth]
    by_cases low : i < 8
    · simp [low]
    · simp [BitVec.getLsbD_of_ge byte i (by omega)]
  rw [← BitVec.add_eq_or_of_and_eq_zero _ _ apart]
  apply BitVec.eq_of_toNat_eq
  rw [BitVec.toNat_add, BitVec.toNat_shiftLeft, BitVec.toNat_setWidth, BitVec.toNat_ofNat,
    Nat.shiftLeft_eq, ← Nat.add_mod]
  congr 1
  ring

theorem reassemble_eq_littleEndian (w : Nat) (bytes : List (BitVec 8)) :
    reassemble w bytes = littleEndian w bytes := by
  induction bytes with
  | nil => rfl
  | cons byte bytes ih =>
      rw [reassemble, List.foldr_cons, ← reassemble, ih, shiftLeft_or_byte, littleEndian, littleEndian,
        List.map_cons, Nat.ofDigits_cons, BitVec.toNat_ofNat]
      apply BitVec.eq_of_toNat_eq
      rw [BitVec.toNat_ofNat, BitVec.toNat_ofNat, Nat.add_mod, Nat.mul_mod_mod, ← Nat.add_mod]

/-! ## A product cut to one word -/

/-- Cutting to a word before shifting gives the same word as cutting afterwards exactly when the shift
pushes no bit of the high part into the word. -/
theorem cut_shift_eq_iff {product w s : Nat} (fits : s ≤ w) :
    product % 2 ^ w / 2 ^ s = product / 2 ^ s % 2 ^ w ↔ 2 ^ s ∣ product / 2 ^ w := by
  have word : 2 ^ w = 2 ^ (w - s) * 2 ^ s := by rw [← pow_add, Nat.sub_add_cancel fits]
  have positive : 0 < 2 ^ s := Nat.two_pow_pos s
  have low : product % 2 ^ w / 2 ^ s < 2 ^ (w - s) := by
    apply Nat.div_lt_of_lt_mul
    rw [Nat.mul_comm, ← word]
    exact Nat.mod_lt _ (Nat.two_pow_pos w)
  have split : product / 2 ^ s =
      product / 2 ^ w * 2 ^ (w - s) + product % 2 ^ w / 2 ^ s := by
    conv_lhs => rw [← Nat.div_add_mod product (2 ^ w)]
    rw [Nat.add_comm, show 2 ^ w * (product / 2 ^ w) = 2 ^ s * (product / 2 ^ w * 2 ^ (w - s)) by
      rw [word]; ring, Nat.add_mul_div_left _ _ positive, Nat.add_comm]
  have high : product / 2 ^ s % 2 ^ w =
      product / 2 ^ w % 2 ^ s * 2 ^ (w - s) + product % 2 ^ w / 2 ^ s := by
    have cut : (product / 2 ^ w * 2 ^ (w - s)) % 2 ^ w = product / 2 ^ w % 2 ^ s * 2 ^ (w - s) := by
      rw [word, Nat.mul_comm (2 ^ (w - s)) (2 ^ s), Nat.mul_mod_mul_right]
    have room : product / 2 ^ w % 2 ^ s * 2 ^ (w - s) + 2 ^ (w - s) ≤ 2 ^ w := by
      rw [← Nat.succ_mul, word, Nat.mul_comm (2 ^ (w - s))]
      exact Nat.mul_le_mul_right _ (Nat.mod_lt _ positive)
    rw [split, Nat.add_mod, cut, Nat.mod_eq_of_lt (a := product % 2 ^ w / 2 ^ s) (by omega)]
    exact Nat.mod_eq_of_lt (by omega)
  rw [high, Nat.dvd_iff_mod_eq_zero]
  constructor
  · intro same
    have nothing : product / 2 ^ w % 2 ^ s * 2 ^ (w - s) = 0 := by omega
    exact (Nat.mul_eq_zero.mp nothing).resolve_right (Nat.two_pow_pos _).ne'
  · intro divides
    rw [divides, Nat.zero_mul, Nat.zero_add]

end LinuxInterview.Library
