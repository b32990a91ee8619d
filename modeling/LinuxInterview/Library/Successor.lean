import Mathlib.GroupTheory.Perm.Cycle.Concrete
import Mathlib.Tactic

/-!
# The next element of a sorted list, around its end
-/

namespace LinuxInterview.Library

variable {α : Type*} [LinearOrder α] {ring : List α} {a : α}

def successor (ring : List α) (a : α) : Option α := (ring.find? (a < ·)).or ring.head?

theorem find?_lt_append_cons {before after : List α} (sorted : (before ++ a :: after).Pairwise (· < ·)) :
    (before ++ a :: after).find? (a < ·) = after.head? := by
  obtain ⟨_, above, below⟩ := List.pairwise_append.mp sorted
  have none : before.find? (a < ·) = none := by
    rw [List.find?_eq_none]
    intro b member
    simpa using (below b member a List.mem_cons_self).le
  rw [List.find?_append, none, Option.none_or, List.find?_cons_of_neg (by simp)]
  cases after with
  | nil => rfl
  | cons b after =>
      have next := (List.pairwise_cons.mp above).1 b List.mem_cons_self
      exact List.find?_cons_of_pos (by simpa using next)

theorem successor_eq_formPerm (sorted : ring.Pairwise (· < ·)) (member : a ∈ ring) :
    successor ring a = some (ring.formPerm a) := by
  obtain ⟨before, after, rfl⟩ := List.append_of_mem member
  have rotated : (before ++ a :: after).formPerm = (a :: after ++ before).formPerm :=
    List.formPerm_eq_of_isRotated sorted.nodup List.isRotated_append
  have distinct : (a :: after ++ before).Nodup := List.isRotated_append.nodup_iff.mp sorted.nodup
  rw [successor, find?_lt_append_cons sorted, rotated]
  cases after with
  | cons b after => exact congrArg some (List.formPerm_apply_head a b (after ++ before) distinct).symm
  | nil =>
      cases before with
      | nil => simp
      | cons b before => exact congrArg some (List.formPerm_apply_head a b before distinct).symm

end LinuxInterview.Library
