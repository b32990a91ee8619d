import LinuxInterview.PageTable.Walk

/-!
# The page walk of `mm_convert` against the walk of `armv8_dump`

Step [2] of `mm_convert_init` goes from the PGD straight down to the PTE level and has no case for
blocks. On tables of valid descriptors it therefore disagrees with `walk` where the address lies in
a 1 GB or 2 MB block, unless the words inside the block happen to lead to a PTE of the same frame.
-/

namespace LinuxInterview.PageTable
open Library

def ptePfn (pte : BitVec 64) : BitVec 64 := (pte &&& genmask 47 12) >>> 12

section
variable (ptePresent : BitVec 64 → Bool)

def convertStep2 (mem : Memory) (mmPgd va : BitVec 64) : Option (BitVec 64) :=
  let pgd := entryAt mem mmPgd (pgdIndex va)
  if entryNone pgd then none
  else
    let pud := entryAt mem (tableAddr pgd) (pudIndex va)
    if entryNone pud then none
    else
      let pmd := entryAt mem (tableAddr pud) (pmdIndex va)
      if entryNone pmd then none
      else
        let pte := entryAt mem (tableAddr pmd) (pteIndex va)
        if ptePresent pte then some (ptePfn pte) else none

def convertJudge (level : Level) (desc : BitVec 64) : Verdict (BitVec 64) :=
  match level with
  | .l0 | .l1 | .l2 => if desc = 0#64 then .fault else .descend
  | .l3 => if ptePresent desc then .found (ptePfn desc) else .fault

theorem convertStep2_eq (mem : Memory) (mmPgd va : BitVec 64) :
    convertStep2 ptePresent mem mmPgd va = resolve (convertJudge ptePresent) (path mem mmPgd va) := by
  rw [path_eq]
  simp only [convertStep2, resolve, convertJudge, entryNone, beq_iff_eq]
  generalize entryAt mem mmPgd _ = pgd
  by_cases zero0 : pgd = 0#64
  · simp [zero0]
  generalize entryAt mem (tableAddr pgd) _ = pud
  by_cases zero1 : pud = 0#64
  · simp [zero0, zero1]
  generalize entryAt mem (tableAddr pud) _ = pmd
  by_cases zero2 : pmd = 0#64
  · simp [zero0, zero1, zero2]
  generalize entryAt mem (tableAddr pmd) _ = pte
  cases present : ptePresent pte <;> simp [zero0, zero1, zero2]

/-! ## Tables of valid descriptors -/

def WellFormed (mem : Memory) : List Level → BitVec 64 → Prop
  | [], _ => True
  | level :: rest, table => ∀ index < 512#64,
      let desc := entryAt mem table index
      desc = 0#64 ∨ level.descType desc ≠ .invalid ∧
        (level.descType desc = .table → WellFormed mem rest (nextTable desc))

theorem validPath_of_wellFormed {mem : Memory} {remaining : List Level} {table : BitVec 64}
    (wellFormed : WellFormed mem remaining table) (va : BitVec 64) :
    ValidPath (radixPath (fun level table => entryAt mem table (fieldIndex va level)) nextTable
      remaining table) := by
  induction remaining generalizing table with
  | nil => trivial
  | cons level rest ih =>
      have bound : fieldIndex va level < 512#64 := by
        rw [fieldIndex, BitVec.lt_def, BitVec.toNat_setWidth]
        exact (Nat.mod_le ..).trans_lt (BitVec.isLt _)
      cases wellFormed _ bound with
      | inl zero => exact Or.inl zero
      | inr valid => exact Or.inr ⟨valid.1, fun isTable => ih (valid.2 isTable)⟩

def EndsInPte : List (Level × BitVec 64) → Prop
  | [] => False
  | [(level, _)] => level = .l3
  | (level, _) :: rest => level ≠ .l3 ∧ EndsInPte rest

/-! ## When the two agree -/

/-- `walk` reports an address in the page that step [2] finds, and neither finds one alone. -/
def SameFrame (pa pfn : Option (BitVec 64)) : Prop :=
  (∀ p, pa = some p → pfn = some (p >>> 12)) ∧ (pfn.isSome → pa.isSome)

def PassesForFrame (frame : BitVec 64) : List (Level × BitVec 64) → Prop
  | [] => False
  | [(_, word)] => ptePresent word = true ∧ ptePfn word = frame
  | (_, word) :: rest => word ≠ 0#64 ∧ PassesForFrame frame rest

/-- The address is in no block, or the content of the block passes for a PTE of the same frame. -/
def NoBlockMisread (va : BitVec 64) : List (Level × BitVec 64) → Prop
  | [] => True
  | (level, desc) :: rest =>
      match level.descType desc with
      | .block => PassesForFrame ptePresent (outputAddress level.shift desc va >>> 12) rest
      | .table => NoBlockMisread va rest
      | .page | .invalid => True

theorem resolve_convertJudge_eq_iff {entries : List (Level × BitVec 64)} (ends : EndsInPte entries)
    (frame : BitVec 64) :
    resolve (convertJudge ptePresent) entries = some frame ↔
      PassesForFrame ptePresent frame entries := by
  induction entries with
  | nil => exact ends.elim
  | cons head rest ih =>
      obtain ⟨level, word⟩ := head
      cases rest with
      | nil =>
          have last : level = .l3 := ends
          subst last
          cases present : ptePresent word <;> simp [resolve, convertJudge, PassesForFrame, present]
      | cons next rest =>
          obtain ⟨inner, ends⟩ := ends
          by_cases zero : word = 0#64
          · cases level <;> simp_all [resolve, convertJudge, PassesForFrame]
          · simp only [PassesForFrame, ← ih ends]
            cases level <;> simp_all [resolve, convertJudge]

theorem outputAddress_shift (desc va : BitVec 64) :
    outputAddress 12 desc va >>> 12 = ptePfn desc := by
  apply BitVec.eq_of_getLsbD_eq
  intro i _
  simp only [ptePfn, outputAddress, BitVec.getLsbD_ushiftRight, BitVec.getLsbD_and,
    getLsbD_genmask _ _ _ (by decide : 47 < 64), BitVec.getLsbD_setWidth, BitVec.getLsbD_append,
    BitVec.getLsbD_extractLsb']
  by_cases high : 12 + i ≤ 47
  · simp [high, show 12 + i < 64 by omega, show i < 36 by omega]
  · simp [high, show ¬ i < 36 by omega]

theorem sameFrame_some_iff (p : BitVec 64) (pfn : Option (BitVec 64)) :
    SameFrame (some p) pfn ↔ pfn = some (p >>> 12) := by
  simp [SameFrame]

theorem descType_zero (level : Level) : level.descType 0#64 = .invalid := by
  cases level <;> rfl

theorem ne_l3_of_descType {level : Level} {desc : BitVec 64}
    (kind : level.descType desc = .table ∨ level.descType desc = .block) : level ≠ .l3 := by
  rintro rfl
  cases low : desc.getLsbD 0 <;> cases high : desc.getLsbD 1 <;> simp_all [Level.descType]

theorem convertJudge_descend {level : Level} {desc : BitVec 64}
    (kind : level.descType desc = .table ∨ level.descType desc = .block) :
    convertJudge ptePresent level desc = .descend := by
  have nonzero : desc ≠ 0#64 := by
    rintro rfl
    simp [descType_zero] at kind
  have inner := ne_l3_of_descType kind
  cases level <;> simp_all [convertJudge]

theorem endsInPte_rest {level : Level} {desc : BitVec 64} {rest : List (Level × BitVec 64)}
    (ends : EndsInPte ((level, desc) :: rest)) (inner : level ≠ .l3) : EndsInPte rest := by
  cases rest with
  | nil => exact absurd ends inner
  | cons next rest => exact ends.2

theorem eq_l3_of_page {level : Level} {desc : BitVec 64} (kind : level.descType desc = .page) :
    level = .l3 ∧ desc.getLsbD 0 = true := by
  cases level <;> cases low : desc.getLsbD 0 <;> cases high : desc.getLsbD 1 <;>
    simp_all [Level.descType]

variable (absent : ptePresent 0#64 = false)
  (valid : ∀ pte : BitVec 64, pte.getLsbD 0 = true → ptePresent pte = true)

include absent valid in
theorem sameFrame_iff_of_validPath (va : BitVec 64) {entries : List (Level × BitVec 64)}
    (validPath : ValidPath entries) (ends : EndsInPte entries) :
    SameFrame (resolve (walkJudge va) entries) (resolve (convertJudge ptePresent) entries) ↔
      NoBlockMisread ptePresent va entries := by
  induction entries with
  | nil => exact ends.elim
  | cons head rest ih =>
      obtain ⟨level, desc⟩ := head
      rcases validPath with zero | ⟨isValid, below⟩
      · subst zero
        cases level <;>
          simp [resolve, walkJudge, convertJudge, absent, NoBlockMisread, descType_zero, SameFrame]
      · have reads := walkJudge_overreads va level desc
        cases kind : level.descType desc with
        | invalid => exact absurd kind isValid
        | table =>
            have walks : walkJudge va level desc = .descend := by simpa [archJudge, kind] using reads
            have converts := convertJudge_descend ptePresent (Or.inl kind)
            have inner := ne_l3_of_descType (Or.inl kind)
            simpa [resolve, walks, converts, NoBlockMisread, kind] using
              ih (below kind) (endsInPte_rest ends inner)
        | block =>
            have walks : walkJudge va level desc = .found (outputAddress level.shift desc va) := by
              simpa [archJudge, kind] using reads
            have converts := convertJudge_descend ptePresent (Or.inr kind)
            have inner := ne_l3_of_descType (Or.inr kind)
            simp only [resolve, walks, converts, NoBlockMisread, kind, sameFrame_some_iff]
            exact resolve_convertJudge_eq_iff ptePresent (endsInPte_rest ends inner) _
        | page =>
            obtain ⟨rfl, bit⟩ := eq_l3_of_page kind
            have walks : walkJudge va .l3 desc = .found (outputAddress 12 desc va) := by
              simpa [archJudge, kind, Level.shift] using reads
            simp [resolve, walks, convertJudge, valid desc bit, NoBlockMisread, kind,
              sameFrame_some_iff, outputAddress_shift]

include absent valid in
theorem sameFrame_iff (mem : Memory) (mmPgd swapper va : BitVec 64) (user : va.getLsbD 63 = false)
    (validPath : ValidPath (path mem mmPgd va)) :
    SameFrame (walk mem ⟨some mmPgd, swapper⟩ va).pa (convertStep2 ptePresent mem mmPgd va) ↔
      NoBlockMisread ptePresent va (path mem mmPgd va) := by
  have walked : (walk mem ⟨some mmPgd, swapper⟩ va).pa =
      resolve (walkJudge va) (path mem mmPgd va) := by
    simp only [walk, Cpu.l0Table, user, Bool.not_false, ↓reduceIte]
    exact walkFrom_pa mem mmPgd va
  have ends : EndsInPte (path mem mmPgd va) := by
    rw [path_eq]
    simp [EndsInPte]
  rw [walked, convertStep2_eq]
  exact sameFrame_iff_of_validPath ptePresent absent valid va validPath ends

include absent valid in
theorem convert_agrees_with_walk_iff (mem : Memory) (mmPgd swapper va : BitVec 64)
    (user : va.getLsbD 63 = false) (wellFormed : WellFormed mem levels mmPgd) :
    SameFrame (walk mem ⟨some mmPgd, swapper⟩ va).pa (convertStep2 ptePresent mem mmPgd va) ↔
      NoBlockMisread ptePresent va (path mem mmPgd va) :=
  sameFrame_iff ptePresent absent valid mem mmPgd swapper va user (validPath_of_wellFormed wellFormed va)

theorem noBlockMisread_of_no_block {va : BitVec 64} {entries : List (Level × BitVec 64)}
    (noBlock : ∀ entry ∈ entries, entry.1.descType entry.2 ≠ .block) : NoBlockMisread ptePresent va entries := by
  induction entries with
  | nil => trivial
  | cons head rest ih =>
      obtain ⟨level, desc⟩ := head
      obtain ⟨here, later⟩ := List.forall_mem_cons.mp noBlock
      cases kind : level.descType desc with
      | block => exact absurd kind here
      | table =>
          simp only [NoBlockMisread, kind]
          exact ih later
      | page | invalid => simp only [NoBlockMisread, kind]

include absent valid in
/-- Without a block on the way the two walks agree. -/
theorem sameFrame_of_no_block (mem : Memory) (mmPgd swapper va : BitVec 64) (user : va.getLsbD 63 = false)
    (wellFormed : WellFormed mem levels mmPgd)
    (noBlock : ∀ entry ∈ path mem mmPgd va, entry.1.descType entry.2 ≠ .block) :
    SameFrame (walk mem ⟨some mmPgd, swapper⟩ va).pa (convertStep2 ptePresent mem mmPgd va) :=
  (sameFrame_iff ptePresent absent valid mem mmPgd swapper va user (validPath_of_wellFormed wellFormed va)).mpr
    (noBlockMisread_of_no_block ptePresent noBlock)

end

/-! The kernel's `pte_present` accepts the valid bit or `PTE_PROT_NONE`, bit 58. -/

def kernelPtePresent (pte : BitVec 64) : Bool := pte.getLsbD 0 || pte.getLsbD 58

/-- A 2 MB block of zero-filled memory at `0x40000000`, mapped at `0x400000`. -/
def hugePageTable : Memory := fun address =>
  if address = 0x1000#64 then 0x2003#64
  else if address = 0x2000#64 then 0x3003#64
  else if address = 0x3010#64 then 0x40000701#64
  else 0#64

theorem hugePageTable_wellFormed : WellFormed hugePageTable levels 0x1000#64 := by
  have pmd : WellFormed hugePageTable [.l2, .l3] 0x3000#64 := by
    intro index bound
    simp only [entryAt, hugePageTable]
    split_ifs with first second third
    · bv_omega
    · bv_omega
    · exact Or.inr ⟨by decide, fun isTable => absurd isTable (by decide)⟩
    · exact Or.inl rfl
  have pud : WellFormed hugePageTable [.l1, .l2, .l3] 0x2000#64 := by
    intro index bound
    simp only [entryAt, hugePageTable]
    split_ifs with first second third
    · bv_omega
    · exact Or.inr ⟨by decide, fun _ => pmd⟩
    · bv_omega
    · exact Or.inl rfl
  intro index bound
  simp only [entryAt, hugePageTable]
  split_ifs with first second third
  · exact Or.inr ⟨by decide, fun _ => pud⟩
  · bv_omega
  · bv_omega
  · exact Or.inl rfl

theorem convert_misses_huge_page :
    WellFormed hugePageTable levels 0x1000#64 ∧
      (walk hugePageTable ⟨some 0x1000#64, 0#64⟩ 0x401234#64).pa = some 0x40001234#64 ∧
      convertStep2 kernelPtePresent hugePageTable 0x1000#64 0x401234#64 = none :=
  ⟨hugePageTable_wellFormed, by decide, by decide⟩

theorem convert_agrees_with_walk_iff_huge_page :
    SameFrame (walk hugePageTable ⟨some 0x1000#64, 0#64⟩ 0x401234#64).pa
        (convertStep2 kernelPtePresent hugePageTable 0x1000#64 0x401234#64) ↔
      NoBlockMisread kernelPtePresent 0x401234#64 (path hugePageTable 0x1000#64 0x401234#64) :=
  convert_agrees_with_walk_iff kernelPtePresent (by decide)
    (fun pte bit => by rw [kernelPtePresent, bit, Bool.true_or]) _ _ _ _ (by decide)
    hugePageTable_wellFormed

end LinuxInterview.PageTable
