import LinuxInterview.Library.RadixWalk
import LinuxInterview.PageTable.Descriptor

/-!
# The software walk of `armv8_dump` against the architecture

`walk` prints the descriptors on the way to a virtual address and ends with a physical address.
The architecture's own translation is written with bit fields and a descriptor kind for each
level; the two are compared along the path of descriptors that `walk` reads.
-/

namespace LinuxInterview.PageTable
open Library

/-! ## The code -/

structure Cpu where
  mmPgd : Option (BitVec 64)
  swapperPa : BitVec 64

structure WalkReport where
  descs : List DescReport
  pa : Option (BitVec 64)
  deriving DecidableEq, Repr

/-- User addresses go through `current->mm`, if there is one, and kernel addresses through `swapper_pg_dir`. -/
def Cpu.l0Table (cpu : Cpu) (va : BitVec 64) : Option (BitVec 64) :=
  let user := !va.getLsbD 63
  if user then cpu.mmPgd else some cpu.swapperPa

def walkFrom (mem : Memory) (pgd va : BitVec 64) : WalkReport :=
  let l0 := entryAt mem pgd (pgdIndex va)
  if entryNone l0 then ⟨[decodeDesc 0 l0], none⟩
  else
    let l1 := entryAt mem (tableAddr l0) (pudIndex va)
    if entryNone l1 then ⟨[decodeDesc 0 l0, decodeDesc 1 l1], none⟩
    else if entrySect l1 then
      ⟨[decodeDesc 0 l0, decodeDesc 1 l1], some ((l1 &&& genmask 47 30) ||| (va &&& 0x3fffffff#64))⟩
    else
      let l2 := entryAt mem (tableAddr l1) (pmdIndex va)
      if entryNone l2 then ⟨[decodeDesc 0 l0, decodeDesc 1 l1, decodeDesc 2 l2], none⟩
      else if entrySect l2 then
        ⟨[decodeDesc 0 l0, decodeDesc 1 l1, decodeDesc 2 l2],
          some ((l2 &&& genmask 47 21) ||| (va &&& 0x1fffff#64))⟩
      else
        let l3 := entryAt mem (tableAddr l2) (pteIndex va)
        let descs := [decodeDesc 0 l0, decodeDesc 1 l1, decodeDesc 2 l2, decodeDesc 3 l3]
        if entryNone l3 then ⟨descs, none⟩
        else ⟨descs, some ((l3 &&& genmask 47 12) ||| (va &&& 0xfff#64))⟩

def walk (mem : Memory) (cpu : Cpu) (va : BitVec 64) : WalkReport :=
  match cpu.l0Table va with
  | none => ⟨[], none⟩
  | some pgd => walkFrom mem pgd va

/-! ## The architecture -/

inductive Level
  | l0
  | l1
  | l2
  | l3
  deriving DecidableEq, Repr

def levels : List Level := [.l0, .l1, .l2, .l3]

def Level.number : Level → Nat
  | .l0 => 0
  | .l1 => 1
  | .l2 => 2
  | .l3 => 3

def Level.shift : Level → Nat
  | .l0 => 39
  | .l1 => 30
  | .l2 => 21
  | .l3 => 12

def Level.descType (level : Level) (desc : BitVec 64) : DescType :=
  match level, desc.getLsbD 0, desc.getLsbD 1 with
  | _, false, _ => .invalid
  | .l0, true, true | .l1, true, true | .l2, true, true => .table
  | .l1, true, false | .l2, true, false => .block
  | .l3, true, true => .page
  | .l0, true, false | .l3, true, false => .invalid

def outputAddress (shift : Nat) (desc va : BitVec 64) : BitVec 64 :=
  (desc.extractLsb' shift (48 - shift) ++ va.extractLsb' 0 shift).setWidth 64

def fieldIndex (va : BitVec 64) (level : Level) : BitVec 64 :=
  (va.extractLsb' level.shift 9).setWidth 64

def nextTable (desc : BitVec 64) : BitVec 64 := (desc.extractLsb' 12 36 ++ 0#12).setWidth 64

/-- Four-level translation with a 4 KB granule; `none` is a translation fault. -/
def translateFrom (mem : Memory) (va : BitVec 64) : List Level → BitVec 64 → Option (BitVec 64)
  | [], _ => none
  | level :: rest, table =>
      let desc := entryAt mem table (fieldIndex va level)
      match level.descType desc with
      | .invalid => none
      | .table => translateFrom mem va rest (nextTable desc)
      | .block | .page => some (outputAddress level.shift desc va)

structure Va48 where
  upper : Bool
  bits : BitVec 48

def Va48.toVa (v : Va48) : BitVec 64 :=
  (if v.upper then BitVec.allOnes 16 else 0#16) ++ v.bits

def translate (mem : Memory) (lower upper : BitVec 64) (v : Va48) : Option (BitVec 64) :=
  translateFrom mem v.toVa levels (if v.upper then upper else lower)

/-! ## The two walks along one path -/

def path (mem : Memory) (root va : BitVec 64) : List (Level × BitVec 64) :=
  radixPath (fun level table => entryAt mem table (fieldIndex va level)) nextTable levels root

def walkJudge (va : BitVec 64) (level : Level) (desc : BitVec 64) : Verdict (BitVec 64) :=
  if desc = 0#64 then .fault
  else match level with
  | .l0 => .descend
  | .l1 | .l2 => if entrySect desc then .found (outputAddress level.shift desc va) else .descend
  | .l3 => .found (outputAddress level.shift desc va)

def archJudge (va : BitVec 64) (level : Level) (desc : BitVec 64) : Verdict (BitVec 64) :=
  match level.descType desc with
  | .invalid => .fault
  | .table => .descend
  | .block | .page => .found (outputAddress level.shift desc va)

theorem tableAddr_eq (desc : BitVec 64) : tableAddr desc = nextTable desc := by
  apply BitVec.eq_of_getLsbD_eq
  intro i bound
  simp only [tableAddr, nextTable, BitVec.getLsbD_and, getLsbD_genmask _ _ _ (by decide : 47 < 64),
    BitVec.getLsbD_setWidth, BitVec.getLsbD_append, BitVec.getLsbD_extractLsb', BitVec.getLsbD_zero]
  by_cases low : i < 12
  · simp [low, show ¬ 12 ≤ i by omega]
  · by_cases high : i ≤ 47
    · simp [low, high, bound, show 12 ≤ i by omega, show i - 12 < 36 by omega,
        show 12 + (i - 12) = i by omega]
    · simp [low, high, show ¬ i - 12 < 36 by omega]

theorem mask_or_eq_outputAddress (shift : Nat) (small : shift ≤ 48) (desc va : BitVec 64) :
    (desc &&& genmask 47 shift) ||| (va &&& BitVec.ofNat 64 (2 ^ shift - 1)) =
      outputAddress shift desc va := by
  apply BitVec.eq_of_getLsbD_eq
  intro i bound
  simp only [outputAddress, BitVec.getLsbD_or, BitVec.getLsbD_and,
    getLsbD_genmask _ _ _ (by decide : 47 < 64), BitVec.getLsbD_ofNat, Nat.testBit_two_pow_sub_one,
    BitVec.getLsbD_setWidth, BitVec.getLsbD_append, BitVec.getLsbD_extractLsb']
  by_cases low : i < shift
  · simp [low, bound, show ¬ shift ≤ i by omega]
  · by_cases high : i ≤ 47
    · simp [low, high, bound, show shift ≤ i by omega, show i - shift < 48 - shift by omega,
        show shift + (i - shift) = i by omega]
    · simp [low, high, show ¬ i - shift < 48 - shift by omega]

theorem index_eq (va : BitVec 64) (level : Level) :
    (va >>> level.shift) &&& 0x1ff#64 = fieldIndex va level := by
  apply BitVec.eq_of_getLsbD_eq
  intro i bound
  have mask : (0x1ff#64).getLsbD i = decide (i < 9) := by
    rw [show (0x1ff#64) = BitVec.ofNat 64 (2 ^ 9 - 1) by rfl, BitVec.getLsbD_ofNat,
      Nat.testBit_two_pow_sub_one]
    simp [bound]
  simp only [fieldIndex, BitVec.getLsbD_and, BitVec.getLsbD_ushiftRight, mask,
    BitVec.getLsbD_setWidth, BitVec.getLsbD_extractLsb', bound, decide_true, Bool.true_and]
  rw [Bool.and_comm]

theorem path_eq (mem : Memory) (root va : BitVec 64) :
    path mem root va =
      let l0 := entryAt mem root (pgdIndex va)
      let l1 := entryAt mem (tableAddr l0) (pudIndex va)
      let l2 := entryAt mem (tableAddr l1) (pmdIndex va)
      let l3 := entryAt mem (tableAddr l2) (pteIndex va)
      [(.l0, l0), (.l1, l1), (.l2, l2), (.l3, l3)] := by
  simp only [path, levels, radixPath, ← tableAddr_eq, ← index_eq]
  rfl

theorem walkFrom_pa (mem : Memory) (root va : BitVec 64) :
    (walkFrom mem root va).pa = resolve (walkJudge va) (path mem root va) := by
  have page : (0xfff#64) = BitVec.ofNat 64 (2 ^ 12 - 1) := rfl
  have small : (0x1fffff#64) = BitVec.ofNat 64 (2 ^ 21 - 1) := rfl
  have large : (0x3fffffff#64) = BitVec.ofNat 64 (2 ^ 30 - 1) := rfl
  rw [path_eq]
  simp only [walkFrom, resolve, walkJudge, Level.shift, entryNone, beq_iff_eq, page, small, large,
    mask_or_eq_outputAddress _ (by decide : 12 ≤ 48), mask_or_eq_outputAddress _ (by decide : 21 ≤ 48),
    mask_or_eq_outputAddress _ (by decide : 30 ≤ 48)]
  generalize entryAt mem root _ = l0
  by_cases zero0 : l0 = 0#64
  · simp [zero0]
  generalize entryAt mem (tableAddr l0) _ = l1
  by_cases zero1 : l1 = 0#64
  · simp [zero0, zero1]
  cases block1 : entrySect l1 with
  | true => simp [zero0, zero1]
  | false =>
      generalize entryAt mem (tableAddr l1) _ = l2
      by_cases zero2 : l2 = 0#64
      · simp [zero0, zero1, zero2]
      cases block2 : entrySect l2 with
      | true => simp [zero0, zero1, zero2]
      | false =>
          generalize entryAt mem (tableAddr l2) _ = l3
          by_cases zero3 : l3 = 0#64 <;> simp [zero0, zero1, zero2, zero3]

theorem resolve_archJudge (mem : Memory) (va root : BitVec 64) :
    translateFrom mem va levels root = resolve (archJudge va) (path mem root va) := by
  unfold path
  generalize levels = remaining
  induction remaining generalizing root with
  | nil => rfl
  | cons level rest ih =>
      simp only [translateFrom, radixPath, resolve, archJudge]
      cases level.descType (entryAt mem root (fieldIndex va level)) with
      | invalid => rfl
      | table => exact ih _
      | block => rfl
      | page => rfl

theorem walkJudge_overreads (va : BitVec 64) : Overreads (walkJudge va) (archJudge va) := by
  intro level desc valid
  have nonzero : desc ≠ 0#64 := by
    rintro rfl
    cases level <;> simp [archJudge, Level.descType] at valid
  cases level <;> cases bit0 : desc.getLsbD 0 <;> cases bit1 : desc.getLsbD 1 <;>
    simp_all [archJudge, walkJudge, Level.descType, entrySect_eq]

/-! ## When the reported address is the translation -/

def EndsAtZero : List (Level × BitVec 64) → Prop
  | [] => True
  | (level, desc) :: rest =>
      desc = 0#64 ∨ level ≠ .l3 ∧ (level = .l0 ∨ entrySect desc = false) ∧ EndsAtZero rest

/-- The first descriptor that is invalid at its level, if the path has one, leads only to a zero one. -/
def InvalidIsDeadEnd : List (Level × BitVec 64) → Prop
  | [] => True
  | (level, desc) :: rest =>
      match level.descType desc with
      | .invalid => EndsAtZero ((level, desc) :: rest)
      | .table => InvalidIsDeadEnd rest
      | .block | .page => True

/-- Up to the block, the page or the zero where the path ends, every descriptor is valid at its level. -/
def ValidPath : List (Level × BitVec 64) → Prop
  | [] => True
  | (level, desc) :: rest =>
      desc = 0#64 ∨ level.descType desc ≠ .invalid ∧ (level.descType desc = .table → ValidPath rest)

theorem invalidIsDeadEnd_of_validPath {entries : List (Level × BitVec 64)} (valid : ValidPath entries) :
    InvalidIsDeadEnd entries := by
  induction entries with
  | nil => trivial
  | cons head rest ih =>
      obtain ⟨level, desc⟩ := head
      cases kind : level.descType desc with
      | invalid =>
          simp only [InvalidIsDeadEnd, kind]
          exact .inl (valid.resolve_right fun good => good.1 kind)
      | table =>
          simp only [InvalidIsDeadEnd, kind]
          rcases valid with rfl | good
          · cases level <;> cases kind
          · exact ih (good.2 kind)
      | block | page => simp only [InvalidIsDeadEnd, kind]

theorem resolve_walkJudge_eq_none_iff (va : BitVec 64) (entries : List (Level × BitVec 64)) :
    resolve (walkJudge va) entries = none ↔ EndsAtZero entries := by
  induction entries with
  | nil => simp [resolve, EndsAtZero]
  | cons head rest ih =>
      obtain ⟨level, desc⟩ := head
      by_cases zero : desc = 0#64
      · simp [resolve, walkJudge, EndsAtZero, zero]
      · cases level with
        | l0 => simpa [resolve, walkJudge, EndsAtZero, zero] using ih
        | l1 | l2 =>
            cases block : entrySect desc with
            | false => simpa [resolve, walkJudge, EndsAtZero, zero, block] using ih
            | true => simp [resolve, walkJudge, EndsAtZero, zero, block]
        | l3 => simp [resolve, walkJudge, EndsAtZero, zero]

theorem faithful_iff (va : BitVec 64) (entries : List (Level × BitVec 64)) :
    Faithful (walkJudge va) (archJudge va) entries ↔ InvalidIsDeadEnd entries := by
  induction entries with
  | nil => rfl
  | cons head rest ih =>
      obtain ⟨level, desc⟩ := head
      cases kind : level.descType desc with
      | invalid =>
          simp only [Faithful, InvalidIsDeadEnd, archJudge, kind]
          exact resolve_walkJudge_eq_none_iff va _
      | table => simpa only [Faithful, InvalidIsDeadEnd, archJudge, kind] using ih
      | block => simp only [Faithful, InvalidIsDeadEnd, archJudge, kind]
      | page => simp only [Faithful, InvalidIsDeadEnd, archJudge, kind]

theorem l0Table_toVa (pgd swapper : BitVec 64) (v : Va48) :
    Cpu.l0Table ⟨some pgd, swapper⟩ v.toVa = some (if v.upper then swapper else pgd) := by
  have half : v.toVa.getLsbD 63 = v.upper := by
    rw [Va48.toVa, BitVec.getLsbD_append]
    cases v.upper <;> rfl
  rw [Cpu.l0Table, half]
  cases v.upper <;> rfl

theorem walk_eq_translate_iff (mem : Memory) (pgd swapper : BitVec 64) (v : Va48) :
    (walk mem ⟨some pgd, swapper⟩ v.toVa).pa = translate mem pgd swapper v ↔
      InvalidIsDeadEnd (path mem (if v.upper then swapper else pgd) v.toVa) := by
  have reported : (walk mem ⟨some pgd, swapper⟩ v.toVa).pa =
      resolve (walkJudge v.toVa) (path mem (if v.upper then swapper else pgd) v.toVa) := by
    rw [walk, l0Table_toVa]
    exact walkFrom_pa mem _ _
  rw [← faithful_iff v.toVa, ← resolve_eq_iff (walkJudge_overreads v.toVa), reported, translate,
    resolve_archJudge]

theorem walk_reports_translation_iff (mem : Memory) (pgd swapper : BitVec 64) (v : Va48) :
    (∀ p, (walk mem ⟨some pgd, swapper⟩ v.toVa).pa = some p ↔ translate mem pgd swapper v = some p) ↔
      InvalidIsDeadEnd (path mem (if v.upper then swapper else pgd) v.toVa) := by
  rw [← walk_eq_translate_iff]
  exact ⟨Option.ext, fun same p => by rw [same]⟩

/-- Without a non-zero invalid descriptor on the way the walk gives the translation. -/
theorem walk_eq_translate (mem : Memory) (pgd swapper : BitVec 64) (v : Va48)
    (valid : ValidPath (path mem (if v.upper then swapper else pgd) v.toVa)) :
    (walk mem ⟨some pgd, swapper⟩ v.toVa).pa = translate mem pgd swapper v :=
  (walk_eq_translate_iff mem pgd swapper v).mpr (invalidIsDeadEnd_of_validPath valid)

/-- The page at `0x400000` has a `PROT_NONE` entry: bit 58 is set and the valid bit is clear. -/
def protNoneTable : Memory := fun address =>
  if address = 0x1000#64 then 0x2003#64
  else if address = 0x2000#64 then 0x3003#64
  else if address = 0x3010#64 then 0x4003#64
  else if address = 0x4000#64 then 0x0400000012345000#64
  else 0#64

theorem walk_reports_protNone_page :
    (walk protNoneTable ⟨some 0x1000#64, 0#64⟩ (Va48.toVa ⟨false, 0x400000#48⟩)).pa = some 0x12345000#64 ∧
      translate protNoneTable 0x1000#64 0#64 ⟨false, 0x400000#48⟩ = none := by
  decide

end LinuxInterview.PageTable
