import Mathlib.Tactic

/-!
# Assignments that are made one after the other
-/

namespace LinuxInterview.Library

variable {κ β : Type*} [DecidableEq κ]

def assign (entries : List (κ × β)) (v : κ → β) : κ → β :=
  entries.foldl (fun v entry => Function.update v entry.1 entry.2) v

variable {entries : List (κ × β)} {v : κ → β} {k : κ} {b : β}

theorem assign_other (absent : ∀ entry ∈ entries, entry.1 ≠ k) : assign entries v k = v k := by
  induction entries generalizing v with
  | nil => rfl
  | cons entry entries ih =>
      have later : ∀ other ∈ entries, other.1 ≠ k := fun other member => absent other (List.mem_cons_of_mem _ member)
      have here : k ≠ entry.1 := (absent entry List.mem_cons_self).symm
      calc assign entries (Function.update v entry.1 entry.2) k
          = Function.update v entry.1 entry.2 k := ih later
        _ = v k := Function.update_of_ne here ..

/-- A key that is assigned one value only has it afterwards, whatever the order. -/
theorem assign_of_mem (agree : ∀ entry ∈ entries, entry.1 = k → entry.2 = b)
    (present : ∃ entry ∈ entries, entry.1 = k) : assign entries v k = b := by
  induction entries generalizing v with
  | nil =>
      obtain ⟨entry, member, -⟩ := present
      cases member
  | cons entry entries ih =>
      have later : ∀ other ∈ entries, other.1 = k → other.2 = b :=
        fun other member => agree other (List.mem_cons_of_mem _ member)
      by_cases again : ∃ other ∈ entries, other.1 = k
      · exact ih later again
      · push Not at again
        obtain ⟨last, member, key⟩ := present
        rcases List.mem_cons.mp member with rfl | inside
        · calc assign entries (Function.update v last.1 last.2) k
              = Function.update v last.1 last.2 k := assign_other again
            _ = last.2 := by rw [key, Function.update_self]
            _ = b := agree last List.mem_cons_self key
        · exact absurd key (again last inside)

end LinuxInterview.Library
