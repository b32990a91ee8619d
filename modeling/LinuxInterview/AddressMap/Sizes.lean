import LinuxInterview.AddressMap.Join
import LinuxInterview.Library.Decimal

/-!
# The sizes of the address map

`sz` multiplies a double by a power of two. A size of whole bytes comes out as it is, up to the
precision of a double.
-/

namespace LinuxInterview.AddressMap
open Library Library.Csv Mmio

/-- The exponent of a unit. The Kelvin sign, which `re.I` takes for a K, has none. -/
def sizeUnit : Char → Option Nat
  | 'K' | 'k' => some 10
  | 'M' | 'm' => some 20
  | 'G' | 'g' => some 30
  | _ => none

/-- `float(s)` of digits and points, before it is rounded. -/
def floatText (s : Text) : Except PyError ℚ :=
  match splitAt '.' s with
  | [whole] => if whole = [] then .error .valueError else return (← decimalNumber whole)
  | [whole, fraction] =>
      if whole = [] ∧ fraction = [] then .error .valueError
      else return (← decimalNumber (whole ++ fraction)) / 10 ^ fraction.length
  | _ => .error .valueError

/-- `none` is an exception: no match, a unit that is not in the table, a numeral that is none, or a
number that is too large for a double. -/
def sz (s : Text) : Option Nat :=
  let numeral := s.takeWhile fun c => isDecimal c || c == '.'
  match s.dropWhile fun c => isDecimal c || c == '.' with
  | unit :: byte :: _ =>
      if numeral = [] ∨ (byte ≠ 'B' ∧ byte ≠ 'b') then none
      else do
        let u ← sizeUnit unit
        let x ← (floatText numeral).toOption
        let product := double x * 2 ^ u
        if 2 ^ 1024 ≤ product then none else some ⌊product⌋₊
  | _ => none

def readBlock (r : Dict) : Option Block := do
  let module ← (getText r "module").toOption
  let start ← (getText r "start" >>= intHex).toOption
  let sizeText ← (getText r "size").toOption
  let size ← sz sizeText
  return ⟨module, start, size, sizeText⟩

def trmHeader : List Text := ["module", "start", "size"].map String.toList

/-! ## Whole sizes -/

theorem sizeUnit_cases {c : Char} {u : Nat} (known : sizeUnit c = some u) :
    u ≤ 30 ∧ (isDecimal c || c == '.') = false := by
  unfold sizeUnit at known
  split at known
  all_goals first | contradiction | cases known
  all_goals decide

theorem sz_exact {numeral : Text} {unit : Char} {u v : Nat} {x : ℚ} (nonempty : numeral ≠ [])
    (numerals : ∀ c ∈ numeral, (isDecimal c || c == '.') = true) (known : sizeUnit unit = some u)
    (read : floatText numeral = .ok x) (whole : x * 2 ^ u = v) (precise : v < 2 ^ 53) :
    sz (numeral ++ [unit, 'B']) = some v := by
  obtain ⟨bound, letter⟩ := sizeUnit_cases known
  have taken : (numeral ++ [unit, 'B']).takeWhile (fun c => isDecimal c || c == '.') = numeral := by
    rw [List.takeWhile_append_of_pos numerals, List.takeWhile_cons, letter]
    simp
  have dropped : (numeral ++ [unit, 'B']).dropWhile (fun c => isDecimal c || c == '.') = [unit, 'B'] := by
    rw [List.dropWhile_append_of_pos numerals, List.dropWhile_cons, letter]
    simp
  have value : x = v * 2 ^ (-u : ℤ) := by
    rw [← whole, zpow_neg, zpow_natCast]
    field_simp
  have product : double x * 2 ^ u = v := by
    rw [value, double_eq_self precise (by omega), ← value, whole]
  have small : ¬ (2 : ℚ) ^ 1024 ≤ v := by
    have large : (2 : ℚ) ^ 53 ≤ 2 ^ 1024 := pow_le_pow_right₀ one_le_two (by omega)
    have below : (v : ℚ) < 2 ^ 53 := by exact_mod_cast precise
    exact not_le.mpr (below.trans_le large)
  have notEmpty : ¬ (numeral = [] ∨ 'B' ≠ 'B' ∧ 'B' ≠ 'b') := by simp [nonempty]
  rw [sz, taken, dropped]
  simp only [if_neg notEmpty, known, read, Except.toOption, bind, Option.bind_some, product, if_neg small,
    Nat.floor_natCast]

theorem sz_toDigits {n u : Nat} {unit : Char} (known : sizeUnit unit = some u) (precise : n * 2 ^ u < 2 ^ 53) :
    sz (Nat.toDigits 10 n ++ [unit, 'B']) = some (n * 2 ^ u) := by
  have digit {c : Char} (member : c ∈ Nat.toDigits 10 n) : c.isDigit = true :=
    Nat.isDigit_of_mem_toDigits (by decide) (by decide) member
  have noPoint : '.' ∉ Nat.toDigits 10 n := fun point => absurd (digit point) (by decide)
  have read : floatText (Nat.toDigits 10 n) = .ok (n : ℚ) := by
    rw [floatText, splitAt_eq_singleton noPoint]
    simp only [Nat.toDigits_ne_nil, if_false, decimalNumber_toDigits]
    rfl
  refine sz_exact Nat.toDigits_ne_nil (fun c member => ?_) known read (by push_cast; rfl) precise
  rw [isDecimal_of_isDigit (digit member), Bool.true_or]

/-- The size is written in whole units, and a double holds it. -/
def Block.Sized (block : Block) : Prop :=
  ∃ n u unit, sizeUnit unit = some u ∧ n * 2 ^ u < 2 ^ 53 ∧ block.size = n * 2 ^ u ∧
    block.sizeText = Nat.toDigits 10 n ++ [unit, 'B']

/-- The block as the reader has its line of the address map. -/
def Block.dict (block : Block) : Dict := dictOf trmHeader [block.module, hex8 block.start, block.sizeText]

theorem readBlock_dict {block : Block} (sized : block.Sized) : readBlock block.dict = some block := by
  obtain ⟨n, u, unit, known, precise, size, written⟩ := sized
  have name : getText block.dict "module" = .ok block.module := rfl
  have address : getText block.dict "start" >>= intHex = .ok block.start := intHex_hex8 block.start
  have text : getText block.dict "size" = .ok block.sizeText := rfl
  have number : sz block.sizeText = some block.size := by rw [written, size, sz_toDigits known precise]
  rw [readBlock, name, address, text]
  simp only [Except.toOption, bind, Option.bind_some, number]
  rfl

end LinuxInterview.AddressMap
