import LinuxInterview.Library.Runs
import LinuxInterview.Rkspy.Tracker

namespace LinuxInterview.Rkspy

/-- A buffer the driver created, whether it still exists, and the names it has been given since. -/
structure Created where
  create : MemCreate
  live : Bool
  offset : Option (BitVec 64)
  va : Option (BitVec 64)
  deriving DecidableEq, Repr

def MemCreate.covers (d : BitVec 64) (c : MemCreate) : Bool :=
  decide (c.dmaAddr.toNat ≤ d.toNat) && decide (d.toNat < c.dmaAddr.toNat + c.size.toNat)

inductive Op
  | create (c : MemCreate)
  | map (handle : BitVec 32) (offset : BitVec 64)
  | mmap (offset va : BitVec 64)
  | destroy (handle : BitVec 32)
  deriving DecidableEq, Repr

def Op.isCreate : Op → Bool
  | .create _ => true
  | _ => false

/-- A new buffer may take any handle, object address and device range that no live buffer holds. -/
def FreshNames (created : List Created) (c : MemCreate) : Prop :=
  (∀ old ∈ created, old.live = true → old.create.handle ≠ c.handle ∧
    old.create.objAddr ≠ c.objAddr ∧
    (old.create.dmaAddr.toNat + old.create.size.toNat ≤ c.dmaAddr.toNat ∨
      c.dmaAddr.toNat + c.size.toNat ≤ old.create.dmaAddr.toNat)) ∧
  c.dmaAddr ≠ 0#64 ∧ c.dmaAddr.toNat + c.size.toNat < 2 ^ 64

def assignOffset (handle : BitVec 32) (offset : BitVec 64) (b : Created) : Created :=
  if b.live = true ∧ b.create.handle = handle then { b with offset := some offset } else b

def assignVa (offset va : BitVec 64) (b : Created) : Created :=
  if b.live = true ∧ b.offset = some offset then { b with va := some va } else b

def release (handle : BitVec 32) (b : Created) : Created :=
  if b.create.handle = handle then { b with live := false } else b

def Permits (created : List Created) : Op → Prop
  | .create c => FreshNames created c
  | .map handle offset =>
      (∃ b ∈ created, b.live = true ∧ b.create.handle = handle) ∧ fakeOffsetBase ≤ offset ∧
        ∀ b ∈ created, b.live = true → b.offset = some offset → b.create.handle = handle
  | .mmap _ va => va ≠ mapFailed
  | .destroy handle => ∃ b ∈ created, b.live = true ∧ b.create.handle = handle

instance (created : List Created) : (op : Op) → Decidable (Permits created op)
  | .create _ => inferInstanceAs (Decidable (_ ∧ _ ∧ _))
  | .map _ _ => inferInstanceAs (Decidable (_ ∧ _ ∧ _))
  | .mmap _ _ => inferInstanceAs (Decidable (_ ≠ _))
  | .destroy _ => inferInstanceAs (Decidable (∃ b ∈ created, _))

def serve (created : List Created) : Op → List Created
  | .create c => created ++ [⟨c, true, none, none⟩]
  | .map handle offset => created.map (assignOffset handle offset)
  | .mmap offset va => created.map (assignVa offset va)
  | .destroy handle => created.map (release handle)

def track (t : Tracker) : Op → Tracker
  | .create c => ioctl t (.memCreate c) 0
  | .map handle offset => ioctl t (.memMap ⟨handle, offset⟩) 0
  | .mmap offset va => noteMap t va offset
  | .destroy handle => ioctl t (.memDestroy ⟨handle⟩) 0

structure System where
  created : List Created
  tracker : Tracker

def System.init : System := ⟨[], .empty⟩

def System.next (s : System) (op : Op) : System := ⟨serve s.created op, track s.tracker op⟩

abbrev System.Run : List Op → System → Prop :=
  Library.Run (Library.Guarded (fun s => Permits s.created) System.next) .init

end LinuxInterview.Rkspy
