import Mathlib.Tactic

/-!
# Tallies

One counter for each class, and each value counted in the class it falls in.
-/

namespace LinuxInterview.Library

variable {α ι : Type*} [DecidableEq ι]

def tally (classOf : α → ι) (values : List α) : ι → ℕ :=
  values.foldl (fun counts x => Function.update counts (classOf x) (counts (classOf x) + 1)) 0

theorem tally_concat (classOf : α → ι) (values : List α) (x : α) :
    tally classOf (values ++ [x]) =
      Function.update (tally classOf values) (classOf x) (tally classOf values (classOf x) + 1) := by
  rw [tally, List.foldl_append]
  rfl

theorem tally_eq_countP (classOf : α → ι) (values : List α) (i : ι) :
    tally classOf values i = values.countP fun x => classOf x = i := by
  induction values using List.reverseRecOn with
  | nil => rfl
  | append_singleton values x ih =>
      rw [tally_concat, List.countP_append, ← ih]
      by_cases here : classOf x = i
      · simp [← here]
      · simp [here, Function.update_of_ne (Ne.symm here)]

theorem sum_tally [Fintype ι] (classOf : α → ι) (values : List α) :
    ∑ i, tally classOf values i = values.length := by
  induction values using List.reverseRecOn with
  | nil => exact Finset.sum_const_zero
  | append_singleton values x ih =>
      have split := Finset.add_sum_erase Finset.univ (tally classOf values) (Finset.mem_univ (classOf x))
      rw [tally_concat, Finset.sum_update_of_mem (Finset.mem_univ _), Finset.sdiff_singleton_eq_erase,
        List.length_append, List.length_singleton, ← ih, ← split]
      omega

theorem tally_pos {classOf : α → ι} {values : List α} {x : α} (member : x ∈ values) :
    0 < tally classOf values (classOf x) := by
  rw [tally_eq_countP]
  exact List.countP_pos_iff.mpr ⟨x, member, decide_eq_true rfl⟩

end LinuxInterview.Library
