import Mathlib.Tactic

namespace LinuxInterview.PageTable

abbrev Memory := BitVec 64 → BitVec 64

def genmask (h l : Nat) : BitVec 64 := (BitVec.allOnes 64 <<< l) &&& (BitVec.allOnes 64 >>> (63 - h))

theorem getLsbD_genmask (h l i : Nat) (bound : h < 64) :
    (genmask h l).getLsbD i = (decide (l ≤ i) && decide (i ≤ h)) := by
  simp only [genmask, BitVec.getLsbD_and, BitVec.getLsbD_shiftLeft, BitVec.getLsbD_ushiftRight,
    BitVec.getLsbD_allOnes]
  by_cases low : l ≤ i <;> by_cases high : i ≤ h <;> simp [low, high] <;> omega

def tableAddr (desc : BitVec 64) : BitVec 64 := desc &&& genmask 47 12

def pgdIndex (va : BitVec 64) : BitVec 64 := (va >>> 39) &&& 0x1ff#64
def pudIndex (va : BitVec 64) : BitVec 64 := (va >>> 30) &&& 0x1ff#64
def pmdIndex (va : BitVec 64) : BitVec 64 := (va >>> 21) &&& 0x1ff#64
def pteIndex (va : BitVec 64) : BitVec 64 := (va >>> 12) &&& 0x1ff#64

def entryAt (mem : Memory) (table index : BitVec 64) : BitVec 64 := mem (table + 8#64 * index)

/-- `pgd_none`, `pud_none`, `pmd_none` and `pte_none`. -/
def entryNone (desc : BitVec 64) : Bool := desc == 0#64

/-- `pud_sect` and `pmd_sect`. -/
def entrySect (desc : BitVec 64) : Bool := desc &&& 3#64 == 1#64

theorem getLsbD_zero_eq (desc : BitVec 64) : desc.getLsbD 0 = decide (desc.toNat % 2 = 1) := by
  simp [BitVec.getLsbD, Nat.testBit_zero]

theorem getLsbD_one_eq (desc : BitVec 64) : desc.getLsbD 1 = decide (desc.toNat / 2 % 2 = 1) := by
  simp [BitVec.getLsbD, Nat.testBit_succ]

theorem and_three_eq_iff (desc kind : BitVec 64) (small : kind.toNat < 4) :
    desc &&& 3#64 = kind ↔ desc.getLsbD 0 = kind.getLsbD 0 ∧ desc.getLsbD 1 = kind.getLsbD 1 := by
  have low : (desc &&& 3#64).toNat = desc.toNat % 4 :=
    (BitVec.toNat_and ..).trans (Nat.and_two_pow_sub_one_eq_mod _ 2)
  rw [← BitVec.toNat_inj, low]
  simp only [getLsbD_zero_eq, getLsbD_one_eq, decide_eq_decide]
  omega

theorem entrySect_eq (desc : BitVec 64) :
    entrySect desc = (desc.getLsbD 0 && !desc.getLsbD 1) := by
  rw [Bool.eq_iff_iff, entrySect, beq_iff_eq, and_three_eq_iff desc 1#64 (by decide)]
  simp

/-! ## `decode_desc` -/

inductive DescType
  | invalid
  | page
  | table
  | block
  deriving DecidableEq, Repr

def DescType.text : DescType → String
  | .invalid => "INVALID -> Translation Fault"
  | .page => "PAGE  descriptor ([1:0]=0b11)"
  | .table => "TABLE descriptor ([1:0]=0b11)"
  | .block => "BLOCK descriptor ([1:0]=0b01)"

def apText (ap : BitVec 64) : String :=
  if ap = 0#64 then "EL1 RW, EL0 none"
  else if ap = 1#64 then "EL1 RW, EL0 RW"
  else if ap = 2#64 then "EL1 RO, EL0 none"
  else "EL1 RO, EL0 RO"

def shText (sh : BitVec 64) : String :=
  if sh = 0#64 then "Non-shareable"
  else if sh = 2#64 then "Outer Shareable"
  else if sh = 3#64 then "Inner Shareable"
  else "reserved"

structure Attributes where
  attrIndx : BitVec 64
  ns : BitVec 64
  ap : BitVec 64
  apText : String
  sh : BitVec 64
  shText : String
  af : BitVec 64
  nG : BitVec 64
  dbm : BitVec 64
  contig : BitVec 64
  pxn : BitVec 64
  uxn : BitVec 64
  deriving DecidableEq, Repr

def attributes (desc : BitVec 64) : Attributes where
  attrIndx := (desc >>> 2) &&& 7#64
  ns := (desc >>> 5) &&& 1#64
  ap := (desc >>> 6) &&& 3#64
  apText := apText ((desc >>> 6) &&& 3#64)
  sh := (desc >>> 8) &&& 3#64
  shText := shText ((desc >>> 8) &&& 3#64)
  af := (desc >>> 10) &&& 1#64
  nG := (desc >>> 11) &&& 1#64
  dbm := (desc >>> 51) &&& 1#64
  contig := (desc >>> 52) &&& 1#64
  pxn := (desc >>> 53) &&& 1#64
  uxn := (desc >>> 54) &&& 1#64

structure DescReport where
  level : Nat
  desc : BitVec 64
  type : DescType
  text : String
  address : Option (BitVec 64)
  attrs : Option Attributes
  deriving DecidableEq, Repr

def decodeDesc (level : Nat) (desc : BitVec 64) : DescReport :=
  let lo2 := desc &&& 3#64
  let type :=
    if desc &&& 1#64 = 0#64 then DescType.invalid
    else if lo2 = 3#64 then if level = 3 then DescType.page else DescType.table
    else DescType.block
  if desc &&& 1#64 = 0#64 then ⟨level, desc, type, type.text, none, none⟩
  else if lo2 = 3#64 ∧ level < 3 then ⟨level, desc, type, type.text, some (desc &&& genmask 47 12), none⟩
  else ⟨level, desc, type, type.text, some (desc &&& genmask 47 12), some (attributes desc)⟩

end LinuxInterview.PageTable
