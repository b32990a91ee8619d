import LinuxInterview.Library.Text
import LinuxInterview.Rkspy.Tracker

/-!
# What `rkspy` writes for a submit

The heading of a submit and the table of the convolution parameters of its tasks, which are read back
from the register commands. Two parts of the log are given as lines: the physical pages and the raw
words of the first tasks.
-/

namespace LinuxInterview.Rkspy
open Library

structure Task where
  opIdx : BitVec 32
  regcfgAmount : BitVec 32
  regcmdAddr : BitVec 64

structure SubcoreTask where
  taskStart : BitVec 32
  taskNumber : BitVec 32

structure Submit where
  flags : BitVec 32
  taskStart : BitVec 32
  taskNumber : BitVec 32
  taskObjAddr : BitVec 64
  iommuDomainId : BitVec 32
  taskBaseAddr : BitVec 64
  coreMask : BitVec 32
  fenceFd : BitVec 32
  subcoreTask : Fin 5 → SubcoreTask

/-- A line of the log that has no number where a row of the table has that of its task. -/
structure Remark where
  text : Text
  oneLine : ∀ c ∈ text, c ≠ '\n' ∧ c ≠ '\r'
  unnumbered : '#' ∉ text
  notRow : ¬ ((text.take 2).all isBlank = true ∧ (text[2]?).any Char.isDigit = true)

/-- A submit and what the shim sees of the process: `memory` is the quadword at an address, `tasks`
the array in the task buffer. -/
structure Dump where
  tracker : Tracker
  memory : BitVec 64 → BitVec 64
  submit : Submit
  tasks : BitVec 32 → Task
  physical : List Remark
  raw : List Remark

def entryOffset (entry : BitVec 64) : BitVec 64 := entry &&& 0xffff#64

def entryValue (entry : BitVec 64) : BitVec 32 := BitVec.setWidth 32 (entry >>> 16 &&& 0xffffffff#64)

def regcmdFind (t : Tracker) (memory : BitVec 64 → BitVec 64) (tk : Task) (want : BitVec 64) :
    Option (BitVec 32) := do
  let ri ← findByDma t tk.regcmdAddr
  let b ← t.bufs[ri]?
  if b.va = 0#64 then none
  else
    let e := b.va + (tk.regcmdAddr - b.dmaAddr)
    let n := tk.regcfgAmount + 4#32
    let entries := (List.range n.toNat).map fun i => memory (e + 8#64 * BitVec.ofNat 64 i)
    (entries.find? fun entry => entryOffset entry = want).map entryValue

def unsigned {w : Nat} (n : BitVec w) : Text := Nat.toDigits 10 n.toNat

def signed {w : Nat} (n : BitVec w) : Text := decimal n.toInt

def hexadecimal {w : Nat} (n : BitVec w) : Text := hex n.toNat

/-! ## The table -/

structure Column where
  name : String
  width : Nat
  register : BitVec 64
  shift : Nat
  mask : BitVec 32

namespace Column

def W : Column := ⟨"W", 5, 0x1020, 16, 0x7ff⟩
def H : Column := ⟨"H", 5, 0x1020, 0, 0x7ff⟩
def ch : Column := ⟨"ch", 6, 0x1024, 0, 0xffff⟩
def chreal : Column := ⟨"chreal", 6, 0x1024, 16, 0x3fff⟩
def grains : Column := ⟨"grains", 6, 0x1010, 4, 0x3ff⟩
def kw : Column := ⟨"k_w", 4, 0x1038, 24, 0x1f⟩
def kh : Column := ⟨"k_h", 4, 0x1038, 16, 0x1f⟩
def sx : Column := ⟨"sx", 4, 0x1014, 0, 0x7⟩
def sy : Column := ⟨"sy", 4, 0x1014, 3, 0x7⟩
def pl : Column := ⟨"pl", 4, 0x1068, 4, 0xf⟩
def pt : Column := ⟨"pt", 4, 0x1068, 0, 0xf⟩

def all : List Column := [W, H, ch, chreal, grains, kw, kh, sx, sy, pl, pt]

def value (c : Column) (register : BitVec 32) : BitVec 32 := register >>> c.shift &&& c.mask

end Column

/-- `"  %-5s %-6s"` and the columns, each after a blank. -/
def tableLine (task op : Text) (cells : List (Nat × Text)) : Text :=
  [' ', ' '] ++ padRight 5 ' ' task ++ [' '] ++ padRight 6 ' ' op ++
    cells.flatMap fun (width, cell) => ' ' :: padLeft width ' ' cell

namespace Dump

def number (d : Dump) (k : Nat) : BitVec 32 := d.submit.taskStart + BitVec.ofNat 32 k

def task (d : Dump) (k : Nat) : Task := d.tasks (d.number k)

def found (d : Dump) (c : Column) (k : Nat) : Option (BitVec 32) :=
  (regcmdFind d.tracker d.memory (d.task k) c.register).map c.value

def cell (found : Option (BitVec 32)) : Text :=
  match found with
  | some value => unsigned value
  | none => ['-']

def row (d : Dump) (k : Nat) : Text :=
  tableLine (unsigned (d.number k)) (unsigned (d.task k).opIdx)
    (Column.all.map fun c => (c.width, cell (d.found c k)))

def rows (d : Dump) : Int → List Nat → List Text
  | _, [] => []
  | prevOp, k :: ks =>
      let op := (d.task k).opIdx.toInt
      (if op ≠ prevOp ∧ 0 ≤ prevOp then ["    ----".toList] else []) ++ d.row k :: d.rows op ks

def tableHeading : List Text := [
  [],
  "  === 每個 task 的卷積參數（從 CNA 暫存器還原）===".toList,
  "  0x1020 data_size0: [26:16]=width [10:0]=height   0x1024 data_size1: [29:16]=ch_real [15:0]=ch".toList,
  "  0x1010 conv_con2 : [13:4]=feature_grains          0x1014 conv_con3 : [5:3]=y_stride [2:0]=x_stride".toList,
  "  0x1038 wt_size2  : [28:24]=k_w [20:16]=k_h        0x1068 pad_con0 : [7:4]=pad_left [3:0]=pad_top".toList,
  tableLine "task".toList "op".toList (Column.all.map fun c => (c.width, c.name.toList))]

def dumpShapes (d : Dump) : List Text :=
  tableHeading ++ d.rows (-1) (List.range d.submit.taskNumber.toNat)

/-! ## The submit -/

def banner (seen : Nat) : Text :=
  "================ SUBMIT #".toList ++ Nat.toDigits 10 seen ++ " ================".toList

def heading (s : Submit) : List Text :=
  ("flags=0x".toList ++ hexadecimal s.flags ++ " task_start=".toList ++ unsigned s.taskStart ++
    " task_number=".toList ++ unsigned s.taskNumber ++ " core_mask=0x".toList ++
    hexadecimal s.coreMask ++ " fence_fd=".toList ++ signed s.fenceFd) ::
  ("task_obj_addr=0x".toList ++ hexadecimal s.taskObjAddr ++ "  task_base_addr=0x".toList ++
    hexadecimal s.taskBaseAddr ++ "  iommu_domain_id=".toList ++ signed s.iommuDomainId) ::
  (List.finRange 5).map fun i : Fin 5 =>
    "  subcore[".toList ++ Nat.toDigits 10 i.val ++ "]: start=".toList ++
      unsigned (s.subcoreTask i).taskStart ++ " number=".toList ++
      unsigned (s.subcoreTask i).taskNumber

def taskBuffer (d : Dump) : Option Buf := do
  let ti ← findByObj d.tracker d.submit.taskObjAddr
  d.tracker.bufs[ti]?

def bufferLine (b : Buf) : Text :=
  "  task buffer: va=0x".toList ++ hexadecimal b.va ++ " dma=0x".toList ++ hexadecimal b.dmaAddr ++
    " size=".toList ++ unsigned b.size

def dumpTasks (d : Dump) : List Text :=
  match d.taskBuffer with
  | none => ["  !! 找不到 task buffer".toList]
  | some b =>
      if b.va = 0#64 then ["  !! task buffer 沒 mmap".toList]
      else bufferLine b :: (d.raw.map Remark.text ++ d.dumpShapes)

def dumpSubmit (d : Dump) (seen : Nat) : List Text :=
  [] :: banner seen :: (heading d.submit ++ d.physical.map Remark.text ++ d.dumpTasks)

end Dump

/-! ## The log -/

inductive Output
  | remark (r : Remark)
  | submit (d : Dump)

/-- The lines of the log from where `submitSeen` submits are in it. -/
def log (submitSeen : Nat) : List Output → List Text
  | [] => []
  | .remark r :: rest => r.text :: log submitSeen rest
  | .submit d :: rest => d.dumpSubmit (submitSeen + 1) ++ log (submitSeen + 1) rest

def printed (lines : List Text) : Text := lines.flatMap fun line => line ++ ['\n']

end LinuxInterview.Rkspy
