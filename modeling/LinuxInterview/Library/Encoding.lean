import Mathlib.Tactic

/-!
# Encodings by mask and value

The instructions of a kind are the words with given values at given bits. A decoder goes through a
list of such encodings and takes the first that a word matches.
-/

namespace LinuxInterview.Library

structure Encoding (w : Nat) where
  mask : BitVec w
  value : BitVec w
  deriving DecidableEq

namespace Encoding

variable {w : Nat}

def Matches (e : Encoding w) (word : BitVec w) : Prop := word &&& e.mask = e.value

instance (e : Encoding w) (word : BitVec w) : Decidable (e.Matches word) :=
  inferInstanceAs (Decidable (_ = _))

/-- Two encodings that want different values at a bit they share. -/
def Apart (e f : Encoding w) : Prop := e.value &&& f.mask ≠ f.value &&& e.mask

instance (e f : Encoding w) : Decidable (e.Apart f) := inferInstanceAs (Decidable (_ ≠ _))

/-- Every bit that `f` fixes has the same value in `e`. -/
def Refines (e f : Encoding w) : Prop := f.mask &&& e.mask = f.mask ∧ e.value &&& f.mask = f.value

instance (e f : Encoding w) : Decidable (e.Refines f) := inferInstanceAs (Decidable (_ ∧ _))

def both (e f : Encoding w) : Encoding w := ⟨e.mask ||| f.mask, e.value ||| f.value⟩

variable {e f : Encoding w} {word : BitVec w}

theorem Apart.symm (apart : e.Apart f) : f.Apart e := Ne.symm apart

theorem Apart.not_both (apart : e.Apart f) (first : e.Matches word) : ¬ f.Matches word := by
  intro second
  apply apart
  rw [← show word &&& e.mask = e.value from first, ← show word &&& f.mask = f.value from second,
    BitVec.and_assoc, BitVec.and_assoc, BitVec.and_comm e.mask]

theorem Refines.matches_of (refines : e.Refines f) (here : e.Matches word) : f.Matches word := by
  rw [Matches, ← refines.1, BitVec.and_comm f.mask, ← BitVec.and_assoc,
    show word &&& e.mask = e.value from here]
  exact refines.2

theorem both_of_matches (first : e.Matches word) (second : f.Matches word) :
    (e.both f).Matches word := by
  rw [Matches, both, BitVec.and_or_distrib_left, show word &&& e.mask = e.value from first,
    show word &&& f.mask = f.value from second]

/-- The test of a field that the program shifts down first. -/
theorem matches_field_iff {m v : BitVec w} {s : Nat} (field : m <<< s >>> s = m)
    (fits : v <<< s >>> s = v) :
    (⟨m <<< s, v <<< s⟩ : Encoding w).Matches word ↔ word >>> s &&& m = v := by
  have shifted : word &&& m <<< s = (word >>> s &&& m) <<< s := by
    apply BitVec.eq_of_getLsbD_eq
    intro i bound
    rw [BitVec.getLsbD_and, BitVec.getLsbD_shiftLeft, BitVec.getLsbD_shiftLeft, BitVec.getLsbD_and,
      BitVec.getLsbD_ushiftRight]
    by_cases low : i < s
    · simp [low]
    · have same : s + (i - s) = i := by omega
      simp [low, bound, same]
  have inverse : (word >>> s &&& m) <<< s >>> s = word >>> s &&& m := by
    apply BitVec.eq_of_getLsbD_eq
    intro i bound
    rw [← field]
    simp only [BitVec.getLsbD_ushiftRight, BitVec.getLsbD_shiftLeft, BitVec.getLsbD_and]
    by_cases inside : s + i < w
    · simp [inside]
    · simp [inside]
  rw [Matches]
  simp only
  rw [shifted]
  constructor
  · intro same
    rw [← inverse, same, fits]
  · intro same
    rw [same]

/-! ## The first match -/

variable {α : Type}

def firstMatch (table : List (Encoding w × (BitVec w → α))) (word : BitVec w) : Option α :=
  (table.find? fun entry => entry.1.Matches word).map fun entry => entry.2 word

theorem of_firstMatch {table : List (Encoding w × (BitVec w → α))} {label : α}
    (found : firstMatch table word = some label) :
    ∃ entry ∈ table, entry.1.Matches word ∧ entry.2 word = label := by
  obtain ⟨entry, first, rfl⟩ := Option.map_eq_some_iff.mp found
  exact ⟨entry, List.mem_of_find?_eq_some first, by simpa using List.find?_some first, rfl⟩

theorem firstMatch_of_matches {table before after : List (Encoding w × (BitVec w → α))}
    {entry : Encoding w × (BitVec w → α)} (split : table = before ++ entry :: after)
    (apart : ∀ e ∈ before.map Prod.fst, e.Apart entry.1) (here : entry.1.Matches word) :
    firstMatch table word = some (entry.2 word) := by
  have skipped : before.find? (fun earlier => earlier.1.Matches word) = none := by
    rw [List.find?_eq_none]
    intro earlier member
    have differs := apart earlier.1 (List.mem_map_of_mem member)
    simpa using differs.symm.not_both here
  rw [firstMatch, split, List.find?_append, skipped, Option.none_or, List.find?_cons_of_pos (by simpa using here)]
  rfl

end Encoding

end LinuxInterview.Library
