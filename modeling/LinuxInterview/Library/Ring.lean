import Mathlib.Tactic

/-!
# Rings of links

A store in which each of `n` places holds the next one, and the last holds the first. From any of them
the links lead through all of them before they come back.
-/

namespace LinuxInterview.Library

variable {α : Type*}

structure Linked (next : α → α) (order : Nat → α) (n : Nat) : Prop where
  follows : ∀ i < n, next (order i) = order ((i + 1) % n)

namespace Linked

variable {next : α → α} {order : Nat → α} {n : Nat} (linked : Linked next order n)
include linked

theorem iterate {i : Nat} (inside : i < n) (k : Nat) : next^[k] (order i) = order ((i + k) % n) := by
  induction k with
  | zero => rw [Function.iterate_zero_apply, Nat.add_zero, Nat.mod_eq_of_lt inside]
  | succ k ih =>
      rw [Function.iterate_succ_apply', ih, linked.follows _ (Nat.mod_lt _ (by omega)), Nat.mod_add_mod,
        Nat.add_assoc]

/-- `n` steps pass through every place once, and the next one is where they started. -/
theorem round {i : Nat} (inside : i < n) :
    ((List.range n).map fun k => next^[k] (order i)).Perm ((List.range n).map order) ∧
      next^[n] (order i) = order i := by
  constructor
  · have turned : ((List.range n).map fun k => next^[k] (order i)) =
        ((List.range n).map order).rotate i := by
      apply List.ext_getElem
      · simp
      · intro k bound _
        rw [List.getElem_rotate]
        simp [linked.iterate inside k, Nat.add_comm k i]
    rw [turned]
    exact List.rotate_perm _ i
  · rw [linked.iterate inside, Nat.add_mod_right, Nat.mod_eq_of_lt inside]

end Linked

variable [DecidableEq α]

def link (order : Nat → α) (n : Nat) (store : α → α) : α → α :=
  (List.range n).foldl (fun store i => Function.update store (order i) (order ((i + 1) % n))) store

theorem foldl_update {order : Nat → α} (target : Nat → α) {m : Nat} (distinct : Set.InjOn order (Set.Iio m))
    (store : α → α) : ∀ i < m, (List.range m).foldl
      (fun store i => Function.update store (order i) (target i)) store (order i) = target i := by
  induction m with
  | zero => exact fun i bound => absurd bound (Nat.not_lt_zero i)
  | succ m ih =>
      intro i bound
      rw [List.range_succ, List.foldl_append, List.foldl_cons, List.foldl_nil]
      by_cases last : i = m
      · rw [last, Function.update_self]
      · have other : order i ≠ order m := fun same => last (distinct bound (Nat.lt_succ_self m) same)
        rw [Function.update_of_ne other]
        exact ih (distinct.mono (Set.Iio_subset_Iio (Nat.le_succ m))) i (by omega)

theorem linked_link {order : Nat → α} {n : Nat} (distinct : Set.InjOn order (Set.Iio n)) (store : α → α) :
    Linked (link order n store) order n :=
  ⟨foldl_update (fun i => order ((i + 1) % n)) distinct store⟩

end LinuxInterview.Library
