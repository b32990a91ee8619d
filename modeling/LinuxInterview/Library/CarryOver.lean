import Mathlib.Tactic

/-!
# Readings carried over within a run

A sequence whose elements have a kind, and may or may not have a reading. An element without a
reading keeps the most recent one of its run, the stretch of elements of its own kind that leads up
to it.
-/

namespace LinuxInterview.Library

variable {κ β : Type} [DecidableEq κ]

/-- The elements of the run that leads up to the `k`-th, the latest first. -/
def currentRun (kind : Nat → κ) (k : Nat) : List Nat :=
  (List.range (k + 1)).reverse.takeWhile fun j => kind j = kind k

def mostRecent (kind : Nat → κ) (reading : Nat → Option β) (k : Nat) : Option β :=
  (currentRun kind k).findSome? reading

/-- What is left of the readings before the `k`-th element for that element. -/
def carriedTo (kind : Nat → κ) (reading : Nat → Option β) : Nat → Option β
  | 0 => none
  | k + 1 => if kind k = kind (k + 1) then mostRecent kind reading k else none

variable (kind : Nat → κ) (reading : Nat → Option β)

theorem currentRun_succ (k : Nat) : currentRun kind (k + 1) =
    (k + 1) :: if kind k = kind (k + 1) then currentRun kind k else [] := by
  have last : (List.range (k + 1 + 1)).reverse = (k + 1) :: (List.range (k + 1)).reverse := by
    rw [List.range_succ, List.reverse_append]
    rfl
  have before : (List.range (k + 1)).reverse = k :: (List.range k).reverse := by
    rw [List.range_succ, List.reverse_append]
    rfl
  rw [currentRun, last, List.takeWhile_cons]
  simp only [decide_true, if_true]
  congr 1
  split
  · rename_i same
    simp only [currentRun, same]
  · rename_i differs
    rw [before, List.takeWhile_cons]
    simp [differs]

theorem mostRecent_eq (k : Nat) :
    mostRecent kind reading k = (reading k).or (carriedTo kind reading k) := by
  cases k with
  | zero =>
      have single : currentRun kind 0 = [0] := by simp [currentRun]
      rw [mostRecent, single, List.findSome?_cons, List.findSome?_nil]
      cases reading 0 <;> rfl
  | succ k =>
      rw [mostRecent, currentRun_succ, List.findSome?_cons]
      cases reading (k + 1) with
      | some value => rfl
      | none =>
          simp only [carriedTo, Option.none_or]
          split <;> rfl

end LinuxInterview.Library
