import Mathlib.Tactic

/-!
# Serial numbers under a limit

Parties count themselves in a shared counter and print what it holds. Where a party counts itself only
below the limit and only when nobody has yet to print, the numbers printed are 1, 2, 3 and so on.
-/

namespace LinuxInterview.Library

def serials (n : Nat) : List Int := (List.range n).map fun k : Nat => (k : Int) + 1

theorem serials_succ (n : Nat) : serials (n + 1) = serials n ++ [(n : Int) + 1] := by
  rw [serials, List.range_succ, List.map_append, List.map_singleton, serials]

variable {ι : Type*}

/-- `pending` are the parties that have counted themselves and have yet to print. -/
structure Numbered (limit counter : Int) (printed : List Int) (pending : ι → Prop) : Prop where
  in_order : printed = serials printed.length
  bounded : counter ≤ max 0 limit
  unique : ∀ i j, pending i → pending j → i = j
  settled : (∀ i, ¬ pending i) → counter = printed.length
  ahead : ∀ i, pending i → counter = printed.length + 1

namespace Numbered

variable {limit counter : Int} {printed : List Int} {pending pending' : ι → Prop}

theorem start (none : ∀ i, ¬ pending i) : Numbered limit 0 [] pending where
  in_order := rfl
  bounded := le_max_left 0 limit
  unique i _ waits := absurd waits (none i)
  settled _ := rfl
  ahead i waits := absurd waits (none i)

theorem congr (numbered : Numbered limit counter printed pending) (same : ∀ i, pending' i ↔ pending i) :
    Numbered limit counter printed pending' := by
  obtain rfl : pending' = pending := funext fun i => propext (same i)
  exact numbered

theorem count (numbered : Numbered limit counter printed pending) (none : ∀ i, ¬ pending i) (room : counter < limit)
    {i : ι} (only : ∀ j, pending' j → j = i) (some_ : pending' i) :
    Numbered limit (counter + 1) printed pending' where
  in_order := numbered.in_order
  bounded := (Int.add_one_le_of_lt room).trans (le_max_right 0 limit)
  unique j k first second := (only j first).trans (only k second).symm
  settled nobody := absurd some_ (nobody i)
  ahead _ _ := by rw [numbered.settled none]

theorem print (numbered : Numbered limit counter printed pending) {i : ι} (waits : pending i)
    (none : ∀ j, ¬ pending' j) : Numbered limit counter (printed ++ [counter]) pending' where
  in_order := by
    rw [List.length_append, List.length_singleton, serials_succ, ← numbered.in_order, numbered.ahead i waits]
  bounded := numbered.bounded
  unique j _ first := absurd first (none j)
  settled _ := by
    rw [numbered.ahead i waits, List.length_append, List.length_singleton]
    push_cast
    rfl
  ahead j first := absurd first (none j)

theorem length_le (numbered : Numbered limit counter printed pending) : (printed.length : Int) ≤ max 0 limit := by
  by_cases waits : ∃ i, pending i
  · obtain ⟨i, waits⟩ := waits
    have ahead := numbered.ahead i waits
    exact (by omega : (printed.length : Int) ≤ counter).trans numbered.bounded
  · rw [← numbered.settled fun i held => waits ⟨i, held⟩]
    exact numbered.bounded

theorem counter_nonneg (numbered : Numbered limit counter printed pending) : 0 ≤ counter := by
  by_cases waits : ∃ i, pending i
  · obtain ⟨i, waits⟩ := waits
    rw [numbered.ahead i waits]
    omega
  · rw [numbered.settled fun i held => waits ⟨i, held⟩]
    exact Int.natCast_nonneg _

end Numbered

end LinuxInterview.Library
