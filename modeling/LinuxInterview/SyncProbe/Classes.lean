import LinuxInterview.SyncProbe.Decode

/-!
# Instruction classes and the labels of `decode`

The encodings of the architecture, against the mnemonics that are printed.
-/

namespace LinuxInterview.SyncProbe
open Library Library.Encoding

/-! ## The architecture -/

/-- `size 001000 0 1 0 11111 o0 11111 Rn Rt`: `LDXR` and `LDAXR`. -/
def ldxr : Encoding 32 := ⟨0x3FFF7C00#32, 0x085F7C00#32⟩

/-- `size 001000 0 0 0 Rs o0 11111 Rn Rt`: `STXR` and `STLXR`. -/
def stxr : Encoding 32 := ⟨0x3FE07C00#32, 0x08007C00#32⟩

/-- `size 001000 1 L 1 Rs o0 11111 Rn Rt`. -/
def compareAndSwap : Encoding 32 := ⟨0x3FA07C00#32, 0x08A07C00#32⟩

/-- `size 111000 A R 1 Rs 1 000 00 Rn Rt`. -/
def swap : Encoding 32 := ⟨0x3F20FC00#32, 0x38208000#32⟩

/-- `size 111000 A R 1 Rs 0 opc 00 Rn Rt`: `LDADD`, `LDCLR` and so on. -/
def atomicRmw : Encoding 32 := ⟨0x3F208C00#32, 0x38200000#32⟩

/-- `1101 0101 0000 0011 0011 CRm 1 opc 11111`. -/
def barriers : List (Encoding 32 × BarrierName) := [
  (⟨0xFFFFF0FF#32, 0xD503309F#32⟩, .dsb),
  (⟨0xFFFFF0FF#32, 0xD50330BF#32⟩, .dmb),
  (⟨0xFFFFF0FF#32, 0xD50330DF#32⟩, .isb)]

/-- `LDR` of 64 bits with an unsigned offset. -/
def ldrImm : Encoding 32 := ⟨0xFFC00000#32, 0xF9400000#32⟩

/-- The instructions that load and do not store; the atomic operations do both. -/
def loads : List (Encoding 32) := [
  -- exclusive, ordered, and exclusive pair
  ⟨0x3F600000#32, 0x08400000#32⟩, ⟨0xBFE00000#32, 0x88600000#32⟩,
  -- literal: general, signed, vector
  ⟨0xBF000000#32, 0x18000000#32⟩, ⟨0xFF000000#32, 0x98000000#32⟩, ⟨0x3F000000#32, 0x1C000000#32⟩,
  -- pair
  ⟨0x3A400000#32, 0x28400000#32⟩,
  -- unsigned offset: zero-extended, sign-extended, vector
  ⟨0x3FC00000#32, 0x39400000#32⟩, ⟨0xBF800000#32, 0x39800000#32⟩, ⟨0xFFC00000#32, 0xB9800000#32⟩,
  ⟨0x3F400000#32, 0x3D400000#32⟩,
  -- signed offset of nine bits
  ⟨0x3FE00000#32, 0x38400000#32⟩, ⟨0xBFA00000#32, 0x38800000#32⟩, ⟨0xFFE00000#32, 0xB8800000#32⟩,
  ⟨0x3F600000#32, 0x3C400000#32⟩,
  -- register offset
  ⟨0x3FE00C00#32, 0x38600800#32⟩, ⟨0xBFA00C00#32, 0x38A00800#32⟩, ⟨0xFFE00C00#32, 0xB8A00800#32⟩,
  ⟨0x3F600C00#32, 0x3C600800#32⟩,
  -- `LDAPR`
  ⟨0x3FFFFC00#32, 0x38BFC000#32⟩]

def IsLoad (insn : BitVec 32) : Prop := ∃ e ∈ loads, e.Matches insn

def targetIsZeroRegister (insn : BitVec 32) : Bool := insn &&& 0x1f#32 == 31#32

/-- The alias without a result exists for the forms that do not acquire. -/
def storeAlias (insn : BitVec 32) : Bool := targetIsZeroRegister insn && !flag insn 23

def Label.isStore : Label → Bool
  | .storeExclusive _ _ | .strImm => true
  | .atomic store _ _ _ _ => store
  | _ => false

structure Classified (insn : BitVec 32) : Prop where
  loadExclusive : (∃ a w, decode insn = .loadExclusive a w) ↔ ldxr.Matches insn
  storeExclusive : ∀ r w, decode insn = .storeExclusive r w → stxr.Matches insn
  cas : (∃ a r w, decode insn = .cas a r w) ↔ compareAndSwap.Matches insn
  swp : ∀ a r w, decode insn = .swp a r w → swap.Matches insn
  atomic : atomicRmw.Matches insn → decode insn =
    .atomic (storeAlias insn) (atomicOp (insn >>> 12 &&& 7#32)) (flag insn 23) (flag insn 22) (sizeOf insn)
  barrier : ∀ b ∈ barriers, b.1.Matches insn → ∃ crm, decode insn = .barrier b.2 crm
  load : IsLoad insn → (decode insn).isStore = false

/-! ## The word that is printed -/

/-- The label with what its mnemonic does not say left out. -/
def Label.bare : Label → Label
  | .barrier name _ => .barrier name 0#32
  | .swp a r _ => .swp a r .narrow
  | .atomic store op a r _ => .atomic store op a r .narrow
  | .cas a r _ => .cas a r .narrow
  | .loadExclusive a _ => .loadExclusive a .narrow
  | .storeExclusive r _ => .storeExclusive r .narrow
  | .bl _ => .bl 0#32
  | .b _ => .b 0#32
  | l => l

def flags : List Bool := [false, true]

def atomicOps : List AtomicOp := [.add, .clr, .eor, .set, .smax, .smin, .umax, .umin]

def acquiring (a : Bool) : List Label := [.loadExclusive a .narrow, .storeExclusive a .narrow]

def ordered (a r : Bool) : List Label :=
  Label.swp a r .narrow :: Label.cas a r .narrow ::
    flags.flatMap fun store => atomicOps.map fun op => Label.atomic store op a r .narrow

def plain : List Label := [.barrier .dsb 0#32, .barrier .dmb 0#32, .barrier .isb 0#32, .barrier .unknown 0#32,
  .nop, .wfe, .sevl, .sev, .yield, .bl 0#32, .b 0#32, .ret, .strImm, .ldrStr, .adrp, .addImm, .movz, .other]

/-- One label of each mnemonic. -/
def bares : List Label :=
  (flags.flatMap fun a => acquiring a ++ flags.flatMap fun r => ordered a r) ++ plain

theorem mem_flags (a : Bool) : a ∈ flags := by
  cases a <;> decide

theorem bare_mem_bares (l : Label) : l.bare ∈ bares := by
  cases l with
  | barrier name crm => cases name <;> simp [Label.bare, bares, plain]
  | atomic store op a r w => cases op <;> simp [Label.bare, bares, ordered, acquiring, atomicOps, plain, mem_flags]
  | _ => simp [Label.bare, bares, ordered, acquiring, plain, mem_flags]

@[simp] theorem mnemonic_bare (l : Label) : l.bare.mnemonic = l.mnemonic := by
  cases l <;> rfl

/-- The characters as one number, which is quickly compared. -/
def spelling (word : Text) : Nat := word.foldl (fun n c => n * 128 + c.toNat) 0

theorem nodup_mnemonics : (bares.map Label.mnemonic).Nodup := by
  have spelled : ((bares.map Label.mnemonic).map spelling).Nodup := by decide +kernel
  exact List.Nodup.of_map spelling spelled

theorem isWord_mnemonic (l : Label) : IsWord l.mnemonic := by
  have solid : ∀ b ∈ bares, IsWord b.mnemonic := by decide +kernel
  rw [← mnemonic_bare]
  exact solid l.bare (bare_mem_bares l)

/-- Whatever follows the mnemonic is set off by a blank. -/
theorem head?_detail (l : Label) : l.detail.head? = some ' ' ∨ l.detail = [] := by
  cases l with
  | ret | ldrStr | adrp | movz | other => exact Or.inr rfl
  | _ => exact Or.inl rfl

theorem head?_words_text (l : Label) : (words l.text).head? = some l.mnemonic := by
  rw [Label.text, head?_words_append (isWord_mnemonic l)]
  intro c member
  rcases head?_detail l with blank | none
  · rw [blank] at member
    obtain rfl := Option.mem_some.mp member
    rfl
  · rw [none] at member
    cases member

theorem mnemonic_eq_iff {l l' : Label} : l.mnemonic = l'.mnemonic ↔ l.bare = l'.bare := by
  rw [← mnemonic_bare l, ← mnemonic_bare l']
  refine ⟨fun same => ?_, congrArg _⟩
  exact List.inj_on_of_nodup_map nodup_mnemonics (bare_mem_bares l) (bare_mem_bares l') same

/-! ## The tests that lead to a label -/

def Label.tests : Label → List (Encoding 32)
  | .swp _ _ _ | .atomic _ _ _ _ _ => [lseTest]
  | .cas _ _ _ => [casTest]
  | .loadExclusive _ _ => [loadExclusiveTest, loadExclusiveTest']
  | .storeExclusive _ _ => [storeExclusiveTest]
  | .strImm => [strImmTest]
  | _ => SyncProbe.tests.map Prod.fst

theorem lse_mem_tests (insn : BitVec 32) : lseTest ∈ (lseLabel insn).tests := by
  unfold lseLabel
  split
  all_goals exact List.mem_singleton_self lseTest

theorem mem_tests (insn : BitVec 32) : ∀ entry ∈ tests, entry.1 ∈ (entry.2 insn).tests := by
  rw [tests, List.forall_mem_cons, List.forall_mem_cons]
  refine ⟨?_, lse_mem_tests insn, ?_⟩
  · exact List.mem_cons_self
  · simp [tests, Label.tests, casLabel, loadExclusiveLabel, storeExclusiveLabel]

theorem exists_test {insn : BitVec 32} {label : Label} (named : decode insn = label)
    (known : label ≠ .other) : ∃ e ∈ label.tests, e.Matches insn := by
  obtain ⟨entry, member, matched, rfl⟩ := of_decode named known
  exact ⟨entry.1, mem_tests insn entry member, matched⟩

variable {insn : BitVec 32}

theorem decode_barrier (matched : barrierTest.Matches insn) : decode insn = barrierLabel insn :=
  decode_of_entry 0 rfl (by decide) matched

theorem decode_lse (matched : lseTest.Matches insn) : decode insn = lseLabel insn :=
  decode_of_entry 1 rfl (by decide) matched

theorem decode_cas (matched : casTest.Matches insn) : decode insn = casLabel insn :=
  decode_of_entry 2 rfl (by decide) matched

theorem decode_loadExclusive (matched : loadExclusiveTest.Matches insn ∨ loadExclusiveTest'.Matches insn) :
    decode insn = loadExclusiveLabel insn := by
  rcases matched with first | second
  · exact decode_of_entry 3 rfl (by decide) first
  · exact decode_of_entry 4 rfl (by decide) second

theorem decode_storeExclusive (matched : storeExclusiveTest.Matches insn) :
    decode insn = storeExclusiveLabel insn :=
  decode_of_entry 5 rfl (by decide) matched

theorem decode_strImm (matched : strImmTest.Matches insn) : decode insn = .strImm :=
  decode_of_entry 14 rfl (by decide) matched

/-! ## Fields -/

theorem field_of_matches {e : Encoding 32} (here : e.Matches insn) {m v : BitVec 32} (s : Nat)
    (field : m <<< s >>> s = m) (fits : v <<< s >>> s = v) (refines : e.Refines ⟨m <<< s, v <<< s⟩) :
    insn >>> s &&& m = v :=
  (matches_field_iff field fits).mp (refines.matches_of here)

theorem flag_eq_false_iff (s : Nat) : flag insn s = false ↔ insn >>> s &&& 1#32 = 0#32 := by
  have bit : insn >>> s &&& 1#32 = 0#32 ∨ insn >>> s &&& 1#32 = 1#32 := by
    rw [BitVec.and_one_eq_setWidth_ofBool_getLsbD]
    cases (insn >>> s).getLsbD 0 <;> decide
  unfold flag
  rcases bit with zero | one
  · simp [zero]
  · simp [one]

theorem atomicRmw_iff : atomicRmw.Matches insn ↔ lseTest.Matches insn ∧ flag insn 15 = false := by
  rw [flag_eq_false_iff]
  constructor
  · intro rmw
    exact ⟨Refines.matches_of (by decide) rmw,
      field_of_matches rmw 15 (by decide) (by decide) (by decide)⟩
  · rintro ⟨lse, clear⟩
    have cleared : (⟨1#32 <<< 15, 0#32 <<< 15⟩ : Encoding 32).Matches insn :=
      (matches_field_iff (by decide) (by decide)).mpr clear
    exact Refines.matches_of (by decide) (both_of_matches lse cleared)

/-! ## What is read right -/

theorem exists_loadExclusive_iff : (∃ a w, decode insn = .loadExclusive a w) ↔
    loadExclusiveTest.Matches insn ∨ loadExclusiveTest'.Matches insn := by
  constructor
  · rintro ⟨a, w, named⟩
    simpa [Label.tests] using exists_test named (by simp)
  · intro matched
    exact ⟨_, _, decode_loadExclusive matched⟩

/-- The masks leave out two of the bits that the encoding fixes, and the values are those of words
that the architecture reserves. -/
theorem loadExclusive_iff : ((∃ a w, decode insn = .loadExclusive a w) ↔ ldxr.Matches insn) ↔
    ¬ ldxr.Matches insn ∧ ¬ (loadExclusiveTest.Matches insn ∨ loadExclusiveTest'.Matches insn) := by
  have apart : ldxr.Apart loadExclusiveTest ∧ ldxr.Apart loadExclusiveTest' := by decide
  have never : ldxr.Matches insn →
      ¬ (loadExclusiveTest.Matches insn ∨ loadExclusiveTest'.Matches insn) := by
    rintro exclusive (first | second)
    · exact apart.1.not_both exclusive first
    · exact apart.2.not_both exclusive second
  rw [exists_loadExclusive_iff]
  constructor
  · intro same
    have clear : ¬ ldxr.Matches insn := fun exclusive => never exclusive (same.mpr exclusive)
    exact ⟨clear, mt same.mp clear⟩
  · rintro ⟨clear, silent⟩
    exact iff_of_false silent clear

theorem storeExclusive_iff : (∀ r w, decode insn = .storeExclusive r w → stxr.Matches insn) ↔
    (storeExclusiveTest.Matches insn → stxr.Matches insn) := by
  constructor
  · intro only matched
    exact only _ _ (decode_storeExclusive matched)
  · intro only r w named
    apply only
    simpa [Label.tests] using exists_test named (by simp)

theorem exists_cas_iff : (∃ a r w, decode insn = .cas a r w) ↔ compareAndSwap.Matches insn := by
  constructor
  · rintro ⟨a, r, w, named⟩
    have matched : casTest.Matches insn := by simpa [Label.tests] using exists_test named (by simp)
    exact matched
  · intro matched
    exact ⟨_, _, _, decode_cas matched⟩

theorem swp_iff : (∀ a r w, decode insn = .swp a r w → swap.Matches insn) ↔
    (lseTest.Matches insn → flag insn 15 = true → swap.Matches insn) := by
  constructor
  · intro only matched set
    apply only
    rw [decode_lse matched, lseLabel, if_pos set]
  · intro only a r w named
    have matched : lseTest.Matches insn := by simpa [Label.tests] using exists_test named (by simp)
    apply only matched
    rw [decode_lse matched, lseLabel] at named
    by_contra clear
    rw [if_neg clear] at named
    contradiction

theorem decode_atomic (rmw : atomicRmw.Matches insn) : decode insn =
    .atomic (targetIsZeroRegister insn) (atomicOp (insn >>> 12 &&& 7#32)) (flag insn 23) (flag insn 22)
      (sizeOf insn) := by
  obtain ⟨lse, clear⟩ := atomicRmw_iff.mp rmw
  rw [decode_lse lse, lseLabel, clear]
  rfl

theorem atomic_iff : (atomicRmw.Matches insn → decode insn = .atomic (storeAlias insn)
      (atomicOp (insn >>> 12 &&& 7#32)) (flag insn 23) (flag insn 22) (sizeOf insn)) ↔
    (atomicRmw.Matches insn → targetIsZeroRegister insn = true → flag insn 23 = false) := by
  apply forall_congr'
  intro rmw
  rw [decode_atomic rmw, storeAlias]
  cases targetIsZeroRegister insn <;> cases flag insn 23 <;> simp

theorem decode_barriers : ∀ b ∈ barriers, b.1.Matches insn → ∃ crm, decode insn = .barrier b.2 crm := by
  have named : ∀ b ∈ barriers, b.1.Refines barrierTest ∧
      ∃ v : BitVec 32, b.1.Refines ⟨0x7#32 <<< 5, v <<< 5⟩ ∧ v <<< 5 >>> 5 = v ∧ barrierName v = b.2 := by
    simp only [barriers, List.forall_mem_cons]
    exact ⟨⟨by decide, 4#32, by decide⟩, ⟨by decide, 5#32, by decide⟩, ⟨by decide, 6#32, by decide⟩,
      by simp⟩
  intro b member here
  obtain ⟨test, v, field, fits, name⟩ := named b member
  have op2 := field_of_matches here 5 (by decide) fits field
  refine ⟨insn >>> 8 &&& 0xf#32, ?_⟩
  rw [decode_barrier (test.matches_of here), barrierLabel, op2, name]

theorem load_iff : (IsLoad insn → (decode insn).isStore = false) ↔ ¬ ldrImm.Matches insn := by
  constructor
  · intro loads ldr
    have isLoad : IsLoad insn :=
      ⟨⟨0x3FC00000#32, 0x39400000#32⟩, by decide, Refines.matches_of (by decide) ldr⟩
    have labelled := decode_strImm (Refines.matches_of (by decide) ldr : strImmTest.Matches insn)
    have store := loads isLoad
    rw [labelled] at store
    contradiction
  · rintro other ⟨e, member, load⟩
    by_contra store
    have apart : ∀ e ∈ loads, e.Apart storeExclusiveTest ∧ e.Apart atomicRmw ∧
        (e.Apart strImmTest ∨ (e.both strImmTest).Refines ldrImm) := by decide
    obtain ⟨exclusive, rmw, offset⟩ := apart e member
    cases label : decode insn with
    | storeExclusive r w =>
        apply exclusive.not_both load
        simpa [Label.tests] using exists_test label (by simp)
    | strImm =>
        have test : strImmTest.Matches insn := by
          simpa [Label.tests] using exists_test label (by simp)
        rcases offset with distinct | same
        · exact distinct.not_both load test
        · exact other (same.matches_of (both_of_matches load test))
    | atomic zero op a r w =>
        have lse : lseTest.Matches insn := by simpa [Label.tests] using exists_test label (by simp)
        apply rmw.not_both load
        refine atomicRmw_iff.mpr ⟨lse, ?_⟩
        rw [decode_lse lse, lseLabel] at label
        by_contra set
        rw [if_pos (by simpa using set)] at label
        contradiction
    | _ => simp [label, Label.isStore] at store

/-- The words that the comments of the source put in another class than the label does. -/
inductive Misread (insn : BitVec 32) : Prop
  | loadExclusive (missed : ldxr.Matches insn)
  | reserved (taken : loadExclusiveTest.Matches insn ∨ loadExclusiveTest'.Matches insn)
  | storeExclusive (taken : storeExclusiveTest.Matches insn) (other : ¬ stxr.Matches insn)
  | swap (lse : lseTest.Matches insn) (set : flag insn 15 = true) (other : ¬ swap.Matches insn)
  | storeAlias (rmw : atomicRmw.Matches insn) (zero : targetIsZeroRegister insn = true)
      (acquire : flag insn 23 = true)
  | load (ldr : ldrImm.Matches insn)

/-- The line starts with the mnemonic of the label, and no other label has that mnemonic. -/
theorem classified_iff (insn : BitVec 32) :
    ((words (decode insn).text).head? = some (decode insn).mnemonic ∧
      ∀ l : Label, l.mnemonic = (decode insn).mnemonic ↔ l.bare = (decode insn).bare) ∧
    (Classified insn ↔ ¬ Misread insn) := by
  refine ⟨⟨head?_words_text _, fun _ => mnemonic_eq_iff⟩, ?_⟩
  constructor
  · intro right wrong
    obtain ⟨exclusive, silent⟩ := loadExclusive_iff.mp right.loadExclusive
    cases wrong with
    | loadExclusive missed => exact exclusive missed
    | reserved taken => exact silent taken
    | storeExclusive taken other => exact other (storeExclusive_iff.mp right.storeExclusive taken)
    | swap lse set other => exact other (swp_iff.mp right.swp lse set)
    | storeAlias rmw zero acquire =>
        rw [atomic_iff.mp right.atomic rmw zero] at acquire
        contradiction
    | load ldr => exact load_iff.mp right.load ldr
  · intro right
    constructor
    · exact loadExclusive_iff.mpr ⟨fun missed => right (.loadExclusive missed), fun taken => right (.reserved taken)⟩
    · refine storeExclusive_iff.mpr fun taken => ?_
      by_contra other
      exact right (.storeExclusive taken other)
    · exact exists_cas_iff
    · refine swp_iff.mpr fun lse set => ?_
      by_contra other
      exact right (.swap lse set other)
    · refine atomic_iff.mpr fun rmw zero => ?_
      by_contra acquire
      exact right (.storeAlias rmw zero (by simpa using acquire))
    · exact decode_barriers
    · exact load_iff.mpr fun ldr => right (.load ldr)

/-- `ldxr w0, [x1]`, the first instruction of every loop without LSE. -/
theorem ldxr_not_recognised : ¬ Classified 0x885F7C20#32 := by
  intro right
  obtain ⟨a, w, named⟩ := right.loadExclusive.mpr (by decide)
  have label : decode 0x885F7C20#32 = .other := by decide
  rw [label] at named
  contradiction

end LinuxInterview.SyncProbe
