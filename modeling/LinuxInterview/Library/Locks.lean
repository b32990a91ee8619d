import Mathlib.Tactic

/-!
# Who holds what, and how many are where
-/

namespace LinuxInterview.Library

variable {ι κ α : Type*}

/-- The owners of the locks are the parties that hold them. -/
def Agrees (owner : κ → Option ι) (holds : ι → Set κ) : Prop := ∀ m t, owner m = some t ↔ m ∈ holds t

variable {owner : κ → Option ι} {holds holds' : ι → Set κ} {m : κ} {t : ι}

namespace Agrees

theorem free (agrees : Agrees owner holds) (nobody : ∀ t, m ∉ holds t) : owner m = none :=
  Option.eq_none_iff_forall_ne_some.mpr fun t owned => nobody t ((agrees m t).mp owned)

theorem congr (agrees : Agrees owner holds) (same : ∀ t, holds' t = holds t) : Agrees owner holds' := by
  intro m t
  rw [same t]
  exact agrees m t

variable [DecidableEq κ]

theorem change (agrees : Agrees owner holds) {new : Option ι} (here : ∀ u, new = some u ↔ m ∈ holds' u)
    (elsewhere : ∀ u, ∀ x ≠ m, x ∈ holds' u ↔ x ∈ holds u) : Agrees (Function.update owner m new) holds' := by
  intro x u
  rcases eq_or_ne x m with rfl | other
  · rw [Function.update_self]
    exact here u
  · rw [Function.update_of_ne other, elsewhere u x other]
    exact agrees x u

theorem acquire (agrees : Agrees owner holds) (free : owner m = none) (mine : holds' t = insert m (holds t))
    (others : ∀ u, u ≠ t → holds' u = holds u) : Agrees (Function.update owner m (some t)) holds' := by
  refine agrees.change (fun u => ?_) fun u x elsewhere => ?_
  · rcases eq_or_ne u t with rfl | different
    · simp [mine]
    · rw [others u different, ← agrees m u, free]
      simpa using different.symm
  · rcases eq_or_ne u t with rfl | different
    · simp [mine, elsewhere]
    · rw [others u different]

theorem release (agrees : Agrees owner holds) (held : m ∈ holds t) (mine : holds' t = holds t \ {m})
    (others : ∀ u, u ≠ t → holds' u = holds u) : Agrees (Function.update owner m none) holds' := by
  refine agrees.change (fun u => ?_) fun u x elsewhere => ?_
  · rcases eq_or_ne u t with rfl | different
    · simp [mine]
    · rw [others u different, ← agrees m u, (agrees m t).mpr held]
      simpa using different.symm
  · rcases eq_or_ne u t with rfl | different
    · simp [mine, elsewhere]
    · rw [others u different]

end Agrees

section Sum

variable [DecidableEq ι] {β : Type*} [AddCommGroup β]

theorem sum_update_of_mem (f : α → β) (stage : ι → α) {s : Finset ι} {t : ι} (member : t ∈ s) (a : α) :
    ∑ u ∈ s, f (Function.update stage t a u) = ∑ u ∈ s, f (stage u) - f (stage t) + f a := by
  have moved : (fun u => f (Function.update stage t a u)) = Function.update (f ∘ stage) t (f a) :=
    Function.comp_update f stage t a
  have rest := Finset.sum_erase_eq_sub (f := f ∘ stage) member
  rw [moved, Finset.sum_update_of_mem member, Finset.sdiff_singleton_eq_erase, rest, add_comm]
  rfl

theorem sum_update [Fintype ι] (f : α → β) (stage : ι → α) (t : ι) (a : α) :
    ∑ u, f (Function.update stage t a u) = ∑ u, f (stage u) - f (stage t) + f a :=
  sum_update_of_mem f stage (Finset.mem_univ t) a

end Sum

end LinuxInterview.Library
