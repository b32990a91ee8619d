import LinuxInterview.Library.CarryOver
import LinuxInterview.Library.Csv
import LinuxInterview.Library.Pattern
import LinuxInterview.Library.Script
import LinuxInterview.Rkspy.Shapes

/-!
# What `exp05_tiling.py` reads of the log

`load` goes through the log line by line. A register that a task did not write keeps its value from
the tasks before, as in the hardware, until the operation changes.
-/

namespace LinuxInterview.Rkspy
open Library Library.Csv

/-- `ROW`, of thirteen groups. -/
def rowPattern : List Piece :=
  [⟨isBlank, 2, some 2, false⟩, digitRun, blankRun, digitRun] ++
    ((List.replicate 11 [blankRun, solidRun]).flatten ++ [blankEnd])

inductive Key
  | W | H | kh | sy
  deriving DecidableEq, Repr

def keys : List (Key × Nat) := [(.W, 3), (.H, 4), (.kh, 9), (.sy, 11)]

def decimalDigit (c : Char) : Except PyError Nat :=
  match "0123456789".toList.idxOf? c with
  | some digit => .ok digit
  | none => .error .valueError

/-- `int(s)` for digits alone: no sign, blank or underscore. -/
def intDecimal (s : Text) : Except PyError Nat :=
  if s = [] then .error .valueError
  else s.foldlM (fun n c => return 10 * n + (← decimalDigit c)) 0

structure Tile where
  task : Nat
  op : Nat
  W : Nat
  H : Option Nat
  kh : Nat
  sy : Option Nat
  deriving DecidableEq, Repr

structure Loader where
  rows : List Tile
  inFirst : Bool
  nsub : Nat
  curOp : Option Nat
  last : Key → Option Nat

namespace Loader

def start : Loader := ⟨[], false, 0, none, fun _ => none⟩

def submit (l : Loader) : Loader :=
  { l with nsub := l.nsub + 1, inFirst := l.nsub + 1 = 1, curOp := none, last := fun _ => none }

def enter (l : Loader) (op : Nat) : Loader :=
  if some op = l.curOp then l else { l with curOp := some op, last := fun _ => none }

def readKey (m : List Text) (last : Key → Option Nat) (entry : Key × Nat) :
    Except PyError (Key → Option Nat) := do
  let raw := m[entry.2 - 1]?.getD []
  if raw = ['-'] then return last
  else return Function.update last entry.1 (some (← intDecimal raw))

/-- `vals` holds for each key what the loop leaves in `last`. -/
def append (l : Loader) (t op : Nat) (vals : Key → Option Nat) : Loader :=
  match vals .W, vals .kh with
  | some w, some kh => { l with last := vals, rows := l.rows ++ [⟨t, op, w, vals .H, kh, vals .sy⟩] }
  | _, _ => { l with last := vals }

def readRow (limit : Int) (l : Loader) (m : List Text) : Except PyError Loader := do
  let t ← intDecimal (m[0]?.getD [])
  let op ← intDecimal (m[1]?.getD [])
  if limit ≤ t then return l
  else
    let vals ← keys.foldlM (readKey m) (l.enter op).last
    return (l.enter op).append t op vals

def submitMark : Text := ['S', 'U', 'B', 'M', 'I', 'T', ' ', '#']

def readLine (limit : Int) (l : Loader) (line : Text) : Except PyError Loader :=
  if submitMark <:+: line then .ok l.submit
  else if l.inFirst then
    match groups rowPattern line with
    | some m => l.readRow limit m
    | none => .ok l
  else .ok l

end Loader

namespace Loader

variable (l : Loader) (t op : Nat) (vals : Key → Option Nat)

@[simp] theorem enter_rows : (l.enter op).rows = l.rows := by unfold enter; split <;> rfl
@[simp] theorem enter_inFirst : (l.enter op).inFirst = l.inFirst := by unfold enter; split <;> rfl
@[simp] theorem enter_nsub : (l.enter op).nsub = l.nsub := by unfold enter; split <;> rfl

@[simp] theorem enter_curOp : (l.enter op).curOp = some op := by
  unfold enter
  split
  · rename_i same
    exact same.symm
  · rfl

@[simp] theorem append_inFirst : (l.append t op vals).inFirst = l.inFirst := by
  unfold append; split <;> rfl
@[simp] theorem append_nsub : (l.append t op vals).nsub = l.nsub := by unfold append; split <;> rfl
@[simp] theorem append_curOp : (l.append t op vals).curOp = l.curOp := by unfold append; split <;> rfl
@[simp] theorem append_last : (l.append t op vals).last = vals := by unfold append; split <;> rfl

end Loader

def load (file : Text) (limit : Int) : Except PyError (List Tile) := do
  let l ← (fileLines (universalNewlines file)).foldlM (Loader.readLine limit) .start
  return l.rows

/-! ## What the log is about -/

def Key.column : Key → Column
  | .W => .W
  | .H => .H
  | .kh => .kh
  | .sy => .sy

namespace Dump

def op (d : Dump) (k : Nat) : BitVec 32 := (d.task k).opIdx

def reading (d : Dump) (key : Key) (k : Nat) : Option Nat := (d.found key.column k).map BitVec.toNat

/-- The value in force for the `k`-th task: the most recent one found in its run of equal `op_idx`. -/
def inForce (d : Dump) (key : Key) (k : Nat) : Option Nat := mostRecent d.op (d.reading key) k

def tile (d : Dump) (k : Nat) : Option Tile := do
  let w ← d.inForce .W k
  let kh ← d.inForce .kh k
  return ⟨(d.number k).toNat, (d.op k).toNat, w, d.inForce .H k, kh, d.inForce .sy k⟩

def tileBelow (d : Dump) (limit : Int) (k : Nat) : Option Tile :=
  if ((d.number k).toNat : Int) < limit then d.tile k else none

def tiles (d : Dump) (limit : Int) : List Tile :=
  (List.range d.submit.taskNumber.toNat).filterMap (d.tileBelow limit)

end Dump

end LinuxInterview.Rkspy
