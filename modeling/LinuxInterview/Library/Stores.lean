import Mathlib.Tactic

/-!
# Words that are stored in a memory of bytes, the lowest byte first
-/

namespace LinuxInterview.Library

structure StoredWord where
  offset : Nat
  word : BitVec 32
  deriving DecidableEq, Repr

namespace StoredWord

def Covers (s : StoredWord) (a : Nat) : Prop := s.offset ≤ a ∧ a < s.offset + 4

instance (s : StoredWord) (a : Nat) : Decidable (s.Covers a) := inferInstanceAs (Decidable (_ ∧ _))

def byte (s : StoredWord) (a : Nat) : BitVec 8 := (s.word >>> (8 * (a - s.offset))).setWidth 8

def store (m : Nat → BitVec 8) (s : StoredWord) (a : Nat) : BitVec 8 := if s.Covers a then s.byte a else m a

variable {stores : List StoredWord} {m : Nat → BitVec 8} {a : Nat}

theorem stores_other (nowhere : ∀ s ∈ stores, ¬ s.Covers a) : stores.foldl store m a = m a := by
  induction stores generalizing m with
  | nil => rfl
  | cons s stores ih =>
      rw [List.foldl_cons, ih fun t member => nowhere t (List.mem_cons_of_mem s member), store,
        if_neg (nowhere s List.mem_cons_self)]

/-- A byte that is stored in one way only holds what is stored. -/
theorem stores_apply {v : BitVec 8} (agree : ∀ s ∈ stores, s.Covers a → s.byte a = v)
    (somewhere : ∃ s ∈ stores, s.Covers a) : stores.foldl store m a = v := by
  induction stores generalizing m with
  | nil =>
      obtain ⟨s, member, -⟩ := somewhere
      cases member
  | cons s stores ih =>
      rw [List.foldl_cons]
      by_cases later : ∃ t ∈ stores, t.Covers a
      · exact ih (fun t member => agree t (List.mem_cons_of_mem s member)) later
      · push Not at later
        rw [stores_other later]
        obtain ⟨t, member, covers⟩ := somewhere
        rcases List.mem_cons.mp member with rfl | inside
        · rw [store, if_pos covers]
          exact agree t member covers
        · exact absurd covers (later t inside)

/-- A word of four channels of eight bits. -/
def channels (a r g b : BitVec 8) : BitVec 32 :=
  a.setWidth 32 <<< 24 ||| (r.setWidth 32 <<< 16 ||| g.setWidth 32 <<< 8 ||| b.setWidth 32)

variable (offset : Nat) (a r g b : BitVec 8)

theorem byte_channels_zero : (mk offset (channels a r g b)).byte offset = b := by
  ext i inside
  simp [byte, channels]

theorem byte_channels_one : (mk offset (channels a r g b)).byte (offset + 1) = g := by
  ext i inside
  have below : 8 + i < 16 ∧ 8 + i < 24 ∧ 8 + i < 32 ∧ i < 32 := by omega
  simp [byte, channels, below, BitVec.getLsbD_eq_getElem inside]

theorem byte_channels_two : (mk offset (channels a r g b)).byte (offset + 2) = r := by
  ext i inside
  have below : 16 + i < 24 ∧ 16 + i < 32 ∧ i < 32 := by omega
  have up : 16 + i - 8 = 8 + i := by omega
  have outside : b.getLsbD (16 + i) = false := BitVec.getLsbD_of_ge b _ (by omega)
  simp [byte, channels, below, up, outside, BitVec.getLsbD_eq_getElem inside]

end StoredWord

end LinuxInterview.Library
