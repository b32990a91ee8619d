import LinuxInterview.Library.Words
import LinuxInterview.SyncProbe.Decode

/-!
# The targets that `reloc_mod.c` and `sync_probe.c` print

Both modules read a `BL` in memory and add its displacement to the address where it stands;
`reloc_mod.c` does the same for an `ADRP`.
-/

namespace LinuxInterview.RelocMod
open Library Library.Encoding SyncProbe

/-! ## `dump_insn` -/

inductive Note
  | bl (imm26 : BitVec 32) (target : BitVec 64)
  | adrp (rd : BitVec 32) (address : BitVec 64)
  | add (rd rn imm12 : BitVec 32)
  | none
  deriving DecidableEq, Repr

/-- `%#x`, which puts no prefix before a zero. -/
def altHex (n : BitVec 32) : Text := if n = 0#32 then ['0'] else ['0', 'x'] ++ hex n.toNat

def addressText (n : BitVec 64) : Text := ['0', 'x'] ++ hex n.toNat

/-- `symbol` is what `sprint_symbol` writes for an address; of a long name `note` has room for the start only. -/
def Note.text (symbol : BitVec 64 → Text) : Note → Text
  | .bl imm26 target =>
      "BL  imm26=".toList ++ altHex imm26 ++ " → ".toList ++ addressText target ++ " <".toList ++ symbol target ++
        ">".toList
  | .adrp rd address =>
      "ADRP x".toList ++ decimal rd.toNat ++ ", ".toList ++ addressText address
  | .add rd rn imm12 =>
      "ADD  x".toList ++ decimal rd.toNat ++ ", x".toList ++ decimal rn.toNat ++ ", #".toList ++ altHex imm12 ++
        " (:lo12:)".toList
  | .none => []

def adrpTest : Encoding 32 := ⟨0x9f000000#32, 0x90000000#32⟩
def addTest : Encoding 32 := ⟨0xff000000#32, 0x91000000#32⟩

/-- `(s32)(insn << 6) >> 6`. -/
def imm26 (insn : BitVec 32) : BitVec 32 := (insn <<< 6).sshiftRight 6

/-- `(s32)((insn << 8) >> 13)`: the shift to the right is that of a `u32`. -/
def immhi (insn : BitVec 32) : BitVec 32 := insn <<< 8 >>> 13

def immlo (insn : BitVec 32) : BitVec 32 := insn >>> 29 &&& 0x3#32

/-- `(((long)immhi << 2) | immlo) << 12`. -/
def adrpImm (insn : BitVec 32) : BitVec 64 :=
  ((immhi insn).signExtend 64 <<< 2 ||| (immlo insn).setWidth 64) <<< 12

def note (pc : BitVec 64) (insn : BitVec 32) : Note :=
  if blTest.Matches insn then .bl (imm26 insn) (pc + (imm26 insn).signExtend 64 <<< 2)
  else if adrpTest.Matches insn then
    .adrp (insn &&& 0x1f#32) ((pc &&& ~~~0xfff#64) + adrpImm insn)
  else if addTest.Matches insn then
    .add (insn &&& 0x1f#32) (insn >>> 5 &&& 0x1f#32) (insn >>> 10 &&& 0xfff#32)
  else .none

def dumpInsn (memory : BitVec 64 → BitVec 32) (pc : BitVec 64) (n : Nat) : List (BitVec 32 × Note) :=
  (List.range n).map fun i =>
    let address := pc + 4#64 * BitVec.ofNat 64 i
    (memory address, note address (memory address))

/-! ## The architecture -/

def blTarget (pc : BitVec 64) (insn : BitVec 32) : BitVec 64 :=
  pc + 4#64 * (insn.extractLsb' 0 26).signExtend 64

/-- The displacement `immhi:immlo` counts pages and is signed. -/
def adrpTarget (pc : BitVec 64) (insn : BitVec 32) : BitVec 64 :=
  (pc &&& ~~~0xfff#64) + (insn.extractLsb' 5 19 ++ insn.extractLsb' 29 2).signExtend 64 <<< 12

/-- The two modules agree with the architecture and with each other on the instruction at `pc`. -/
structure Targets (pc : BitVec 64) (insn : BitVec 32) : Prop where
  bl : blTest.Matches insn → note pc insn = .bl (imm26 insn) (blTarget pc insn)
  decoded : blTest.Matches insn →
    ∃ off, decode insn = .bl off ∧ pc + off.signExtend 64 = blTarget pc insn
  followed : blTest.Matches insn →
    ∀ memory, memory pc = insn → noteCall memory 0#64 pc = blTarget pc insn
  adrp : adrpTest.Matches insn → note pc insn = .adrp (insn &&& 0x1f#32) (adrpTarget pc insn)
  listed : ∀ memory base n i, i < n → base + 4#64 * BitVec.ofNat 64 i = pc → memory pc = insn →
    (dumpInsn memory base n)[i]? = some (insn, note pc insn)
  blPrinted : blTest.Matches insn →
    ∀ symbol, (words ((note pc insn).text symbol))[3]? = some (addressText (blTarget pc insn))
  adrpPrinted : adrpTest.Matches insn →
    ∀ symbol, (words ((note pc insn).text symbol))[2]? = some (addressText (adrpTarget pc insn))
  dumped : blTest.Matches insn → ∀ memory fn n before after, memory pc = insn →
    reached memory n fn = before ++ pc :: after → (∀ p ∈ before, ¬ blTest.Matches (memory p)) →
    blTarget pc insn ≠ 0#64 →
    dumpFunc memory fn n = dumpWords memory fn n ++ dumpWords memory (blTarget pc insn) n

/-! ## The displacement of a branch -/

theorem getLsbD_imm26 (insn : BitVec 32) {i : Nat} (bound : i < 32) :
    (imm26 insn).getLsbD i = insn.getLsbD (min i 25) := by
  have position : min (i + 6) (32 - 1) - 6 = min i 25 := by omega
  rw [imm26, getLsbD_shiftLeft_sshiftRight insn (by decide) bound, position]
  simp [show 6 ≤ i + 6 by omega]

theorem getLsbD_branchOff (insn : BitVec 32) {i : Nat} (bound : i < 32) :
    (branchOff insn).getLsbD i = (decide (2 ≤ i) && insn.getLsbD (min (i - 2) 25)) := by
  have position : min (i + 4) (32 - 1) - 6 = min (i - 2) 25 := by omega
  rw [branchOff, getLsbD_shiftLeft_sshiftRight insn (by decide) bound, position]
  simp [show 6 ≤ i + 4 ↔ 2 ≤ i by omega]

theorem imm26_signExtend (insn : BitVec 32) :
    (imm26 insn).signExtend 64 = (insn.extractLsb' 0 26).signExtend 64 := by
  apply BitVec.eq_of_getLsbD_eq
  intro i bound
  rw [getLsbD_signExtend_eq _ (by decide) bound, getLsbD_signExtend_eq _ (by decide) bound,
    getLsbD_imm26 _ (by omega), BitVec.getLsbD_extractLsb', Nat.zero_add]
  have position : min (min i (32 - 1)) 25 = min i (26 - 1) := by omega
  rw [position]
  simp [show min i (26 - 1) < 26 by omega]

theorem branchOff_signExtend (insn : BitVec 32) :
    (branchOff insn).signExtend 64 = (imm26 insn).signExtend 64 <<< 2 := by
  apply BitVec.eq_of_getLsbD_eq
  intro i bound
  rw [getLsbD_signExtend_eq _ (by decide) bound, getLsbD_branchOff _ (by omega),
    BitVec.getLsbD_shiftLeft, getLsbD_signExtend_eq _ (by decide) (by omega), getLsbD_imm26 _ (by omega)]
  have position : min (min i (32 - 1) - 2) 25 = min (min (i - 2) (32 - 1)) 25 := by omega
  rw [position]
  by_cases low : i < 2
  · simp [low, show ¬ 2 ≤ min i (32 - 1) by omega]
  · simp [low, bound, show 2 ≤ min i (32 - 1) by omega]

theorem four_mul (x : BitVec 64) : 4#64 * x = x <<< 2 := by
  rw [BitVec.shiftLeft_eq_mul_twoPow, BitVec.mul_comm]
  rfl

theorem note_bl {pc : BitVec 64} {insn : BitVec 32} (call : blTest.Matches insn) :
    note pc insn = .bl (imm26 insn) (blTarget pc insn) := by
  rw [note, if_pos call, blTarget, four_mul, imm26_signExtend]

theorem decode_bl {pc : BitVec 64} {insn : BitVec 32} (call : blTest.Matches insn) :
    decode insn = .bl (branchOff insn) ∧ pc + (branchOff insn).signExtend 64 = blTarget pc insn := by
  constructor
  · exact decode_of_entry 11 rfl (by decide) call
  · rw [branchOff_signExtend, blTarget, four_mul, imm26_signExtend]

theorem callTarget_eq (pc : BitVec 64) (insn : BitVec 32) : callTarget pc insn = blTarget pc insn := by
  rw [blTarget, ← imm26_signExtend]
  rfl

/-! ## The displacement of a page -/

def adrpField (insn : BitVec 32) : BitVec 21 := insn.extractLsb' 5 19 ++ insn.extractLsb' 29 2

theorem getLsbD_immhi (insn : BitVec 32) (i : Nat) :
    (immhi insn).getLsbD i = (decide (i < 19) && insn.getLsbD (i + 5)) := by
  rw [immhi, BitVec.getLsbD_ushiftRight, BitVec.getLsbD_shiftLeft]
  have position : 13 + i - 8 = i + 5 := by omega
  have inside : 13 + i < 32 ↔ i < 19 := by omega
  simp [position, inside, show ¬ 13 + i < 8 by omega]

theorem getLsbD_adrpField (insn : BitVec 32) (i : Nat) : (adrpField insn).getLsbD i =
    if i < 2 then insn.getLsbD (i + 29) else decide (i < 21) && insn.getLsbD (i + 3) := by
  rw [adrpField, BitVec.getLsbD_append, BitVec.getLsbD_extractLsb', BitVec.getLsbD_extractLsb']
  by_cases low : i < 2
  · simp [low, Nat.add_comm]
  · have position : 5 + (i - 2) = i + 3 := by omega
    have inside : i - 2 < 19 ↔ i < 21 := by omega
    simp [low, position, inside]

/-- The page displacement as the code has it: without a sign. -/
theorem adrpImm_eq (insn : BitVec 32) : adrpImm insn = (adrpField insn).setWidth 64 <<< 12 := by
  have unsigned : (immhi insn).msb = false := by
    rw [BitVec.msb_eq_getLsbD_last, getLsbD_immhi]
    rfl
  rw [adrpImm, BitVec.signExtend_eq_setWidth_of_msb_false unsigned]
  congr 1
  apply BitVec.eq_of_getLsbD_eq
  intro i bound
  rw [BitVec.getLsbD_or, BitVec.getLsbD_shiftLeft, BitVec.getLsbD_setWidth, BitVec.getLsbD_setWidth,
    BitVec.getLsbD_setWidth, getLsbD_immhi, getLsbD_adrpField, immlo, BitVec.getLsbD_and,
    BitVec.getLsbD_ushiftRight]
  by_cases low : i < 2
  · have mask : (0x3#32).getLsbD i = true := by
      rcases Nat.lt_or_ge i 1 with zero | one
      · rw [Nat.lt_one_iff.mp zero]
        rfl
      · rw [show i = 1 by omega]
        rfl
    simp [low, bound, mask, Nat.add_comm]
  · have mask : (0x3#32).getLsbD i = false := BitVec.getLsbD_of_ge (0x3#2) i (by omega)
    have position : i - 2 + 5 = i + 3 := by omega
    have inside : i - 2 < 19 ↔ i < 21 := by omega
    simp [low, bound, mask, position, inside, show i - 2 < 64 by omega]

theorem setWidth_eq_signExtend_iff (insn : BitVec 32) :
    (adrpField insn).setWidth 64 <<< 12 = (adrpField insn).signExtend 64 <<< 12 ↔
      insn.getLsbD 23 = false := by
  have sign : (adrpField insn).msb = insn.getLsbD 23 := by
    rw [BitVec.msb_eq_getLsbD_last, getLsbD_adrpField]
    simp
  constructor
  · intro same
    have top := congrArg (fun x => x.getLsbD 63) same
    simp only [BitVec.getLsbD_shiftLeft, BitVec.getLsbD_setWidth, BitVec.getLsbD_signExtend, sign,
      getLsbD_adrpField] at top
    simpa using top.symm
  · intro positive
    rw [BitVec.signExtend_eq_setWidth_of_msb_false (sign.trans positive)]

theorem adrpTarget_eq_iff (pc : BitVec 64) (insn : BitVec 32) :
    (pc &&& ~~~0xfff#64) + adrpImm insn = adrpTarget pc insn ↔ insn.getLsbD 23 = false := by
  rw [adrpTarget, BitVec.add_right_inj, adrpImm_eq]
  exact setWidth_eq_signExtend_iff insn

theorem note_adrp {pc : BitVec 64} {insn : BitVec 32} (page : adrpTest.Matches insn) :
    note pc insn = .adrp (insn &&& 0x1f#32) ((pc &&& ~~~0xfff#64) + adrpImm insn) := by
  have apart : adrpTest.Apart blTest := by decide
  rw [note, if_neg (apart.not_both page), if_pos page]

/-! ## The lines that are printed -/

theorem isWord_addressText (n : BitVec 64) : IsWord (addressText n) := .append (by decide) (isWord_hex n.toNat)

theorem isWord_altHex (n : BitVec 32) : IsWord (altHex n) := by
  unfold altHex
  split
  · decide
  · exact .append (by decide) (isWord_hex n.toNat)

theorem words_bl (symbol : BitVec 64 → Text) (imm : BitVec 32) (target : BitVec 64) :
    (words ((Note.bl imm target).text symbol))[3]? = some (addressText target) := by
  have named : IsWord ("imm26=".toList ++ altHex imm) := .append (by decide) (isWord_altHex imm)
  have line : (Note.bl imm target).text symbol = "BL".toList ++ [' '] ++ (' ' :: ("imm26=".toList ++ altHex imm ++ [' '] ++
      (['→'] ++ [' '] ++ (addressText target ++ [' '] ++ ('<' :: symbol target ++ ['>']))))) := by
    change "BL  imm26=".toList ++ altHex imm ++ " → ".toList ++ addressText target ++ " <".toList ++ symbol target ++
      ">".toList = _
    simp
  rw [line, words_word_blank (by decide), words_blank_cons rfl, words_word_blank named, words_word_blank (by decide),
    words_word_blank (isWord_addressText target)]
  simp only [List.getElem?_cons_succ, List.getElem?_cons_zero]

theorem words_adrp (symbol : BitVec 64 → Text) (rd : BitVec 32) (address : BitVec 64) :
    (words ((Note.adrp rd address).text symbol))[2]? = some (addressText address) := by
  have register : IsWord ("x".toList ++ decimal rd.toNat ++ ",".toList) :=
    .append (.append (by decide) (isWord_decimal rd.toNat)) (by decide)
  have line : (Note.adrp rd address).text symbol =
      "ADRP".toList ++ [' '] ++ ("x".toList ++ decimal rd.toNat ++ ",".toList ++ [' '] ++ addressText address) := by
    change "ADRP x".toList ++ decimal rd.toNat ++ ", ".toList ++ addressText address = _
    simp
  rw [line, words_word_blank (by decide), words_word_blank register, words_word (isWord_addressText address)]
  simp only [List.getElem?_cons_succ, List.getElem?_cons_zero]

theorem getElem?_dumpInsn (memory : BitVec 64 → BitVec 32) (base : BitVec 64) {n i : Nat} (inside : i < n) :
    (dumpInsn memory base n)[i]? =
      some (memory (base + 4#64 * BitVec.ofNat 64 i),
        note (base + 4#64 * BitVec.ofNat 64 i) (memory (base + 4#64 * BitVec.ofNat 64 i))) := by
  simp [dumpInsn, inside]

/-! ## The first call -/

section FirstCall

variable {memory : BitVec 64 → BitVec 32} {ps : List (BitVec 64)}

theorem foldl_noteCall_of_silent (silent : ∀ p ∈ ps, ¬ blTest.Matches (memory p)) (target : BitVec 64) :
    ps.foldl (noteCall memory) target = target := by
  induction ps with
  | nil => rfl
  | cons p ps ih =>
      rw [List.forall_mem_cons] at silent
      rw [List.foldl_cons, noteCall, if_neg fun call => silent.1 call.2]
      exact ih silent.2

theorem foldl_noteCall_of_ne_zero {target : BitVec 64} (known : target ≠ 0#64) :
    ps.foldl (noteCall memory) target = target := by
  induction ps with
  | nil => rfl
  | cons p ps ih => rw [List.foldl_cons, noteCall, if_neg fun call => known call.1, ih]

/-- The call that comes first among the printed words is the one that is followed. -/
theorem dumpFunc_of_first {fn pc target : BitVec 64} {n : Nat} {before after : List (BitVec 64)}
    (noted : noteCall memory 0#64 pc = target) (split : reached memory n fn = before ++ pc :: after)
    (silent : ∀ p ∈ before, ¬ blTest.Matches (memory p)) (known : target ≠ 0#64) :
    dumpFunc memory fn n = dumpWords memory fn n ++ dumpWords memory target n := by
  have found : (reached memory n fn).foldl (noteCall memory) 0#64 = target := by
    rw [split, List.foldl_append, foldl_noteCall_of_silent silent, List.foldl_cons, noted,
      foldl_noteCall_of_ne_zero known]
  rw [dumpFunc, found]
  simp only [if_neg known]

end FirstCall

theorem noteCall_bl {pc : BitVec 64} {insn : BitVec 32} (call : blTest.Matches insn)
    {memory : BitVec 64 → BitVec 32} (here : memory pc = insn) : noteCall memory 0#64 pc = blTarget pc insn := by
  rw [← here] at call ⊢
  rw [noteCall, if_pos ⟨rfl, call⟩, callTarget_eq]

theorem targets_iff (pc : BitVec 64) (insn : BitVec 32) :
    Targets pc insn ↔ ¬ (adrpTest.Matches insn ∧ insn.getLsbD 23 = true) := by
  constructor
  · rintro right ⟨page, negative⟩
    have printed := right.adrp page
    rw [note_adrp page, Note.adrp.injEq, adrpTarget_eq_iff] at printed
    rw [printed.2] at negative
    contradiction
  · intro positive
    have page : adrpTest.Matches insn → note pc insn = .adrp (insn &&& 0x1f#32) (adrpTarget pc insn) := by
      intro page
      rw [note_adrp page, Note.adrp.injEq, adrpTarget_eq_iff]
      exact ⟨rfl, by simpa [page] using positive⟩
    constructor
    · exact note_bl
    · exact fun call => ⟨_, decode_bl call⟩
    · exact fun call memory here => noteCall_bl call here
    · exact page
    · rintro memory base n i inside rfl rfl
      exact getElem?_dumpInsn memory base inside
    · intro call symbol
      rw [note_bl call]
      exact words_bl symbol _ _
    · intro matched symbol
      rw [page matched]
      exact words_adrp symbol _ _
    · intro call memory fn n before after here split silent known
      exact dumpFunc_of_first (noteCall_bl call here) split silent known

/-- `adrp x0, -0x1000`: the page before this one is printed as one 8 GiB further up. -/
theorem backward_page_misprinted : ¬ Targets 0xffffffc008001000#64 0xf0ffffe0#32 := by
  intro right
  have printed := right.adrp (by decide)
  exact absurd printed (by decide)

end LinuxInterview.RelocMod
