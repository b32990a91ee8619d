import Mathlib.Tactic

namespace LinuxInterview.Library

variable {ℓ τ δ β : Type*}

inductive Verdict (β : Type*)
  | fault
  | descend
  | found (value : β)

/-- The entries met on the way down when every one of them is followed as a table. -/
def radixPath (read : ℓ → τ → δ) (next : δ → τ) : List ℓ → τ → List (ℓ × δ)
  | [], _ => []
  | level :: levels, table =>
      (level, read level table) :: radixPath read next levels (next (read level table))

def resolve (judge : ℓ → δ → Verdict β) : List (ℓ × δ) → Option β
  | [] => none
  | (level, entry) :: rest =>
      match judge level entry with
      | .fault => none
      | .descend => resolve judge rest
      | .found value => some value

def Overreads (lenient strict : ℓ → δ → Verdict β) : Prop :=
  ∀ level entry, strict level entry ≠ .fault → lenient level entry = strict level entry

def Faithful (lenient strict : ℓ → δ → Verdict β) : List (ℓ × δ) → Prop
  | [] => True
  | (level, entry) :: rest =>
      match strict level entry with
      | .fault => resolve lenient ((level, entry) :: rest) = none
      | .descend => Faithful lenient strict rest
      | .found _ => True

theorem resolve_eq_iff {lenient strict : ℓ → δ → Verdict β} (overreads : Overreads lenient strict)
    (path : List (ℓ × δ)) :
    resolve lenient path = resolve strict path ↔ Faithful lenient strict path := by
  induction path with
  | nil => simp [resolve, Faithful]
  | cons head rest ih =>
      obtain ⟨level, entry⟩ := head
      cases verdict : strict level entry with
      | fault => simp [Faithful, resolve, verdict]
      | descend =>
          have same := overreads level entry (by simp [verdict])
          simpa [Faithful, resolve, same, verdict] using ih
      | found value =>
          have same := overreads level entry (by simp [verdict])
          simp [Faithful, resolve, same, verdict]

end LinuxInterview.Library
