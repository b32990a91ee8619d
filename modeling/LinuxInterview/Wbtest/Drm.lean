import LinuxInterview.Library.Ownership

/-!
# What a process owns in the display driver

The kernel decides the outcome of each call in the order of the calls, and names what it creates by
a number that is not in use. Calls that destroy succeed.
-/

namespace LinuxInterview.Wbtest
open Library

inductive Kind
  | handle
  | fb
  | map
  | blob
  deriving DecidableEq, Repr

abbrev Owned := Finset (Kind × Nat)

/-- `calls` counts the calls whose outcome the kernel has decided. -/
structure Drm where
  owned : Owned
  calls : Nat

/-- `outcome` gives the errno of a call that fails. -/
structure Kernel where
  outcome : Nat → Option ℕ+
  poll : Nat → Bool
  pitch : UInt32 → UInt32 → UInt32
  size : UInt32 → UInt32 → UInt32 → UInt64
  pick : Owned → Kind → Nat
  fresh : ∀ owned kind, (kind, pick owned kind) ∉ owned

namespace Kernel

/-- A call that creates nothing. -/
def call (k : Kernel) (d : Drm) : Except Int Unit × Drm :=
  match k.outcome d.calls with
  | some errno => (.error (-errno), { d with calls := d.calls + 1 })
  | none => (.ok (), { d with calls := d.calls + 1 })

def create (k : Kernel) (kind : Kind) (d : Drm) : Except Int Nat × Drm :=
  match k.outcome d.calls with
  | some errno => (.error (-errno), { d with calls := d.calls + 1 })
  | none =>
      (.ok (k.pick d.owned kind), ⟨insert (kind, k.pick d.owned kind) d.owned, d.calls + 1⟩)

end Kernel

def destroy (kind : Kind) (id : Nat) (d : Drm) : Drm := { d with owned := d.owned.erase (kind, id) }

end LinuxInterview.Wbtest
