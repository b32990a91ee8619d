import LinuxInterview.Library.Encoding
import LinuxInterview.Library.Text

/-!
# The instruction decoder of `sync_probe.c`
-/

namespace LinuxInterview.SyncProbe
open Library Library.Encoding

inductive BarrierName
  | dsb
  | dmb
  | isb
  | unknown
  deriving DecidableEq, Repr

inductive AtomicOp
  | add | clr | eor | set | smax | smin | umax | umin
  deriving DecidableEq, Repr

inductive Size
  | narrow
  | word
  | double
  deriving DecidableEq, Repr

/-- What `decode` makes of an instruction. The flags are the letters that follow the mnemonic. -/
inductive Label
  | barrier (name : BarrierName) (crm : BitVec 32)
  | swp (acquire release : Bool) (size : Size)
  | atomic (store : Bool) (op : AtomicOp) (acquire release : Bool) (size : Size)
  | cas (acquire release : Bool) (size : Size)
  | loadExclusive (acquire : Bool) (size : Size)
  | storeExclusive (release : Bool) (size : Size)
  | nop | wfe | sevl | sev | yield
  | bl (off : BitVec 32)
  | b (off : BitVec 32)
  | ret | strImm | ldrStr | adrp | addImm | movz
  | other
  deriving DecidableEq, Repr

/-! ## The text that is printed -/

def barDomain (crm : BitVec 32) : String :=
  match crm.toNat with
  | 15 => "sy" | 14 => "st" | 13 => "ld"
  | 11 => "ish" | 10 => "ishst" | 9 => "ishld"
  | 7 => "nsh" | 6 => "nshst" | 5 => "nshld"
  | 3 => "osh" | 2 => "oshst" | 1 => "oshld"
  | _ => "?"

def BarrierName.text : BarrierName → String
  | .dsb => "DSB"
  | .dmb => "DMB"
  | .isb => "ISB"
  | .unknown => "BAR?"

def AtomicOp.text : AtomicOp → String
  | .add => "ADD" | .clr => "CLR" | .eor => "EOR" | .set => "SET"
  | .smax => "SMAX" | .smin => "SMIN" | .umax => "UMAX" | .umin => "UMIN"

def Size.text : Size → String
  | .narrow => "8/16-bit"
  | .word => "32-bit"
  | .double => "64-bit"

def letter (flag : Bool) (text : String) : Text := if flag then text.toList else []

/-- `%+d`. -/
def plusSigned (off : BitVec 32) : Text :=
  if 0 ≤ off.toInt then '+' :: decimal off.toInt else decimal off.toInt

def Label.mnemonic : Label → Text
  | .barrier name _ => name.text.toList
  | .swp a r _ => "SWP".toList ++ letter a "A" ++ letter r "L"
  | .atomic store op a r _ =>
      (if store then "ST" else "LD").toList ++ op.text.toList ++ letter a "A" ++ letter r "L"
  | .cas a r _ => "CAS".toList ++ letter a "A" ++ letter r "L"
  | .loadExclusive a _ => "LD".toList ++ letter a "A" ++ "XR".toList
  | .storeExclusive r _ => "ST".toList ++ letter r "L" ++ "XR".toList
  | .nop => "NOP".toList
  | .wfe => "WFE".toList
  | .sevl => "SEVL".toList
  | .sev => "SEV".toList
  | .yield => "YIELD".toList
  | .bl _ => "BL".toList
  | .b _ => "B".toList
  | .ret => "RET".toList
  | .strImm => "STR".toList
  | .ldrStr => "LDR/STR".toList
  | .adrp => "ADRP".toList
  | .addImm => "ADD".toList
  | .movz => "MOVZ".toList
  | .other => "-".toList

/-- What follows the mnemonic in the line. -/
def Label.detail : Label → Text
  | .barrier _ crm => " ".toList ++ (barDomain crm).toList ++ "   <-- 記憶體屏障".toList
  | .swp _ _ w => "  (".toList ++ w.text.toList ++ ")  <-- LSE 交換指令 (xchg)".toList
  | .atomic store _ _ _ w =>
      "  (".toList ++ w.text.toList ++ ")  <-- LSE 原子指令".toList ++
        (if store then "（無回傳值，ST 別名）" else "（有回傳值）").toList
  | .cas _ _ w => "  (".toList ++ w.text.toList ++ ")  <-- LSE 比較並交換指令".toList
  | .loadExclusive _ w => " (".toList ++ w.text.toList ++ ")  <-- LL/SC 獨佔載入".toList
  | .storeExclusive _ w => " (".toList ++ w.text.toList ++ ")  <-- LL/SC 獨佔儲存".toList
  | .nop => "   <-- alternatives 把 LL/SC 分支改寫成 nop".toList
  | .wfe => "   <-- 進入低功耗等待，被 SEV/獨佔監視器喚醒".toList
  | .sevl => "  <-- 先送一次本地事件，避免錯過喚醒".toList
  | .sev => "   <-- 喚醒其他 CPU 的 WFE".toList
  | .yield => " <-- cpu_relax()".toList
  | .bl off => "   ".toList ++ plusSigned off ++ "   <-- 外呼（全屏障版本被編譯器外聯）".toList
  | .b off => "    ".toList ++ plusSigned off ++ "   <-- 若沒有 LSE，這裡會跳去 LL/SC 迴圈".toList
  | .strImm | .addImm => " (imm)".toList
  | .ret | .ldrStr | .adrp | .movz | .other => []

def Label.text (l : Label) : Text := l.mnemonic ++ l.detail

/-! ## The tests -/

def flag (insn : BitVec 32) (s : Nat) : Bool := insn >>> s &&& 1#32 == 1#32

def sizeOf (insn : BitVec 32) : Size :=
  match (insn >>> 30).toNat with
  | 2 => .word
  | 3 => .double
  | _ => .narrow

def barrierName (op2 : BitVec 32) : BarrierName :=
  match op2.toNat with
  | 4 => .dsb
  | 5 => .dmb
  | 6 => .isb
  | _ => .unknown

def atomicOp (op : BitVec 32) : AtomicOp :=
  match op.toNat with
  | 0 => .add | 1 => .clr | 2 => .eor | 3 => .set
  | 4 => .smax | 5 => .smin | 6 => .umax | _ => .umin

def barrierLabel (insn : BitVec 32) : Label :=
  .barrier (barrierName (insn >>> 5 &&& 0x7#32)) (insn >>> 8 &&& 0xf#32)

def lseLabel (insn : BitVec 32) : Label :=
  if flag insn 15 then .swp (flag insn 23) (flag insn 22) (sizeOf insn)
  else .atomic (insn &&& 0x1f#32 == 31#32) (atomicOp (insn >>> 12 &&& 7#32)) (flag insn 23)
    (flag insn 22) (sizeOf insn)

def casLabel (insn : BitVec 32) : Label := .cas (flag insn 22) (flag insn 15) (sizeOf insn)

def loadExclusiveLabel (insn : BitVec 32) : Label := .loadExclusive (flag insn 15) (sizeOf insn)

def storeExclusiveLabel (insn : BitVec 32) : Label := .storeExclusive (flag insn 15) (sizeOf insn)

/-- `(s32)(insn << 6) >> 4`. -/
def branchOff (insn : BitVec 32) : BitVec 32 := (insn <<< 6).sshiftRight 4

def barrierTest : Encoding 32 := ⟨0xFFFFF01F#32, 0xD503301F#32⟩
def lseTest : Encoding 32 := ⟨0x3F200C00#32, 0x38200000#32⟩
def casTest : Encoding 32 := ⟨0x3FA07C00#32, 0x08A07C00#32⟩
def loadExclusiveTest : Encoding 32 := ⟨0x3FE07C00#32, 0x08400000#32⟩
def loadExclusiveTest' : Encoding 32 := ⟨0x3FE07C00#32, 0x08405C00#32⟩
def storeExclusiveTest : Encoding 32 := ⟨0x3FE00000#32, 0x08000000#32⟩
def blTest : Encoding 32 := ⟨0xFC000000#32, 0x94000000#32⟩
def bTest : Encoding 32 := ⟨0xFC000000#32, 0x14000000#32⟩
def retTest : Encoding 32 := ⟨0xFFFFFC1F#32, 0xD65F0000#32⟩
def strImmTest : Encoding 32 := ⟨0xFF000000#32, 0xF9000000#32⟩

/-- `insn == value`. -/
def exactly (value : BitVec 32) : Encoding 32 := ⟨0xFFFFFFFF#32, value⟩

def tests : List (Encoding 32 × (BitVec 32 → Label)) := [
  (barrierTest, barrierLabel),
  (lseTest, lseLabel),
  (casTest, casLabel),
  (loadExclusiveTest, loadExclusiveLabel),
  (loadExclusiveTest', loadExclusiveLabel),
  (storeExclusiveTest, storeExclusiveLabel),
  (exactly 0xD503201F#32, fun _ => .nop),
  (exactly 0xD503205F#32, fun _ => .wfe),
  (exactly 0xD50320BF#32, fun _ => .sevl),
  (exactly 0xD503209F#32, fun _ => .sev),
  (exactly 0xD503203F#32, fun _ => .yield),
  (blTest, fun insn => .bl (branchOff insn)),
  (bTest, fun insn => .b (branchOff insn)),
  (retTest, fun _ => .ret),
  (strImmTest, fun _ => .strImm),
  (⟨0xFF000000#32, 0xF8000000#32⟩, fun _ => .ldrStr),
  (⟨0x9F000000#32, 0x90000000#32⟩, fun _ => .adrp),
  (⟨0xFF800000#32, 0x91000000#32⟩, fun _ => .addImm),
  (⟨0x7F800000#32, 0x52800000#32⟩, fun _ => .movz)]

def decode (insn : BitVec 32) : Label := (firstMatch tests insn).getD .other

/-! ## The function that is dumped -/

/-- The addresses of the instructions that are printed, up to a `RET`. -/
def reached (memory : BitVec 64 → BitVec 32) : (words : Nat) → (p : BitVec 64) → List (BitVec 64)
  | 0, _ => []
  | words + 1, p => if retTest.Matches (memory p) then [p] else p :: reached memory words (p + 4#64)

/-- `p + i + (((s32)(insn << 6)) >> 6)` for a `BL` at `p + i`, in units of four bytes. -/
def callTarget (p : BitVec 64) (insn : BitVec 32) : BitVec 64 :=
  p + 4#64 * ((insn <<< 6).sshiftRight 6).signExtend 64

def noteCall (memory : BitVec 64 → BitVec 32) (blTarget p : BitVec 64) : BitVec 64 :=
  if blTarget = 0#64 ∧ blTest.Matches (memory p) then callTarget p (memory p) else blTarget

def dumpWords (memory : BitVec 64 → BitVec 32) (fn : BitVec 64) (words : Nat) :
    List (BitVec 64 × Label) :=
  (reached memory words fn).map fun p => (p, decode (memory p))

/-- The first call is followed, one level deep. -/
def dumpFunc (memory : BitVec 64 → BitVec 32) (fn : BitVec 64) (words : Nat) :
    List (BitVec 64 × Label) :=
  let blTarget := (reached memory words fn).foldl (noteCall memory) 0#64
  dumpWords memory fn words ++ if blTarget = 0#64 then [] else dumpWords memory blTarget words

/-! ## Which tests answer -/

theorem decode_of_firstMatch {insn : BitVec 32} {label : Label}
    (found : firstMatch tests insn = some label) : decode insn = label := by
  rw [decode, found, Option.getD_some]

theorem decode_of_entry (n : Nat) {entry : Encoding 32 × (BitVec 32 → Label)} {insn : BitVec 32}
    (here : tests[n]? = some entry)
    (apart : ∀ e ∈ (tests.take n).map Prod.fst, e.Apart entry.1) (matched : entry.1.Matches insn) :
    decode insn = entry.2 insn := by
  obtain ⟨bound, same⟩ := List.getElem?_eq_some_iff.mp here
  have split : tests = tests.take n ++ entry :: tests.drop (n + 1) := by
    rw [← same, ← List.drop_eq_getElem_cons bound, List.take_append_drop]
  exact decode_of_firstMatch (firstMatch_of_matches split apart matched)

theorem of_decode {insn : BitVec 32} {label : Label} (named : decode insn = label)
    (known : label ≠ .other) : ∃ entry ∈ tests, entry.1.Matches insn ∧ entry.2 insn = label := by
  cases found : firstMatch tests insn with
  | none =>
      rw [decode, found, Option.getD_none] at named
      exact absurd named.symm known
  | some first =>
      rw [decode_of_firstMatch found] at named
      rw [← named]
      exact of_firstMatch found

end LinuxInterview.SyncProbe
