import Mathlib.Tactic

/-!
# A map cut into slices

A window that slides down the rows of a map by a stride makes one row of output at each position. The
rows of output are shared out among slices, and each slice reads the rows that its outputs need: the
padding above the first and below the last is not read.
-/

namespace LinuxInterview.Library

structure Split where
  window : Nat
  stride : Nat
  padBefore : Nat
  padAfter : Nat
  outputs : List Nat
  several : 2 ≤ outputs.length
  nonempty : ∀ o ∈ outputs, 1 ≤ o

namespace Split

/-- The rows, padding included, under the windows of `o` rows of output. -/
def spanned (s : Split) (o : Nat) : Int := ((o : Int) - 1) * s.stride + s.window

/-- The rows that the outputs of the whole map need. -/
def used (s : Split) : Int := s.spanned s.outputs.sum - s.padBefore - s.padAfter

def heights (s : Split) : List Int :=
  (((s.outputs.map s.spanned).modifyHead (· - (s.padBefore : Int))).reverse.modifyHead
    (· - (s.padAfter : Int))).reverse

variable (s : Split)

theorem length_heights : s.heights.length = s.outputs.length := by simp [heights]

theorem sum_spanned (outputs : List Nat) : (outputs.map s.spanned).sum =
    ((outputs.sum : Int) - outputs.length) * s.stride + outputs.length * s.window := by
  induction outputs with
  | nil => simp
  | cons o outputs ih =>
      rw [List.map_cons, List.sum_cons, ih, spanned, List.sum_cons, List.length_cons]
      push_cast
      ring

theorem sum_modifyHead_sub {rows : List Int} (nonempty : rows ≠ []) (pad : Int) :
    (rows.modifyHead (· - pad)).sum = rows.sum - pad := by
  cases rows with
  | nil => contradiction
  | cons first rows =>
      rw [List.modifyHead_cons, List.sum_cons, List.sum_cons]
      ring

/-- Each of the seams is read `window - stride` rows too often, or too seldom. -/
theorem sum_heights :
    s.heights.sum = s.used + (s.outputs.length - 1) * ((s.window : Int) - s.stride) := by
  have cut : s.outputs.map s.spanned ≠ [] := by
    intro none
    have several := s.several
    rw [List.map_eq_nil_iff.mp none] at several
    exact absurd several (by decide)
  have cutHead : ((s.outputs.map s.spanned).modifyHead (· - (s.padBefore : Int))).reverse ≠ [] := by
    simpa using cut
  rw [heights, List.sum_reverse, sum_modifyHead_sub cutHead, List.sum_reverse, sum_modifyHead_sub cut,
    sum_spanned, used, spanned]
  ring

end Split

end LinuxInterview.Library
