import Mathlib.Tactic

/-!
# The buffer table of `rkspy`

`rkspy.c` is preloaded between the NPU runtime and the kernel. It keeps one table entry for each
buffer that a `MEM_CREATE` returned and fills in the fake offset and the user address when it sees
the later calls. The table is searched by device address and by object address.
-/

namespace LinuxInterview.Rkspy

structure MemCreate where
  handle : BitVec 32
  flags : BitVec 32
  size : BitVec 64
  objAddr : BitVec 64
  dmaAddr : BitVec 64
  deriving DecidableEq, Repr

structure MemMap where
  handle : BitVec 32
  offset : BitVec 64
  deriving DecidableEq, Repr

structure MemDestroy where
  handle : BitVec 32
  deriving DecidableEq, Repr

inductive Ioctl
  | memCreate (c : MemCreate)
  | memMap (m : MemMap)
  | memDestroy (d : MemDestroy)
  | other
  deriving DecidableEq, Repr

structure Buf where
  handle : BitVec 32
  flags : BitVec 32
  objAddr : BitVec 64
  dmaAddr : BitVec 64
  size : BitVec 64
  moff : BitVec 64
  va : BitVec 64
  deriving DecidableEq, Repr

def maxb : Nat := 512

/-- The first `nbuf` entries of the static array. -/
structure Tracker where
  bufs : List Buf
  nbuf_le : bufs.length ≤ maxb

namespace Tracker

def empty : Tracker := ⟨[], Nat.zero_le _⟩

def push (t : Tracker) (b : Buf) : Tracker :=
  if room : t.bufs.length < maxb then ⟨t.bufs ++ [b], by simpa using room⟩ else t

def update (t : Tracker) (f : Buf → Buf) : Tracker :=
  ⟨t.bufs.map f, by simpa using t.nbuf_le⟩

theorem push_bufs {t : Tracker} (b : Buf) (room : t.bufs.length < maxb) :
    (t.push b).bufs = t.bufs ++ [b] := by
  simp [push, room]

@[simp] theorem update_bufs (t : Tracker) (f : Buf → Buf) : (t.update f).bufs = t.bufs.map f := rfl

end Tracker

def Buf.inDma (d : BitVec 64) (b : Buf) : Bool :=
  b.dmaAddr != 0#64 && decide (b.dmaAddr ≤ d) && decide (d < b.dmaAddr + b.size)

def findByDma (t : Tracker) (d : BitVec 64) : Option Nat := t.bufs.findIdx? (Buf.inDma d)

def findByObj (t : Tracker) (o : BitVec 64) : Option Nat := t.bufs.findIdx? fun b => b.objAddr == o

def mapFailed : BitVec 64 := BitVec.allOnes 64

def fakeOffsetBase : BitVec 64 := 0x100000000#64

def noteMap (t : Tracker) (r off : BitVec 64) : Tracker :=
  if r = mapFailed ∨ off < fakeOffsetBase then t
  else t.update fun b => if b.moff = off then { b with va := r } else b

/-- The bookkeeping after the real `ioctl` returned `r`. `MEM_DESTROY` has no branch of its own. -/
def ioctl (t : Tracker) (request : Ioctl) (r : Int) : Tracker :=
  if r ≠ 0 then t
  else match request with
  | .memCreate c => t.push ⟨c.handle, c.flags, c.objAddr, c.dmaAddr, c.size, 0#64, 0#64⟩
  | .memMap m => t.update fun b => if b.handle = m.handle then { b with moff := m.offset } else b
  | .memDestroy _ | .other => t

end LinuxInterview.Rkspy
