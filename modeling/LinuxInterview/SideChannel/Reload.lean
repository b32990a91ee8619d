import LinuxInterview.Library.Fastest

/-!
# The receivers of `flush_reload` and `meltdown_test`

A byte is sent by loading one of 256 slots into the cache, and received by looking for the slot that is
fastest to load. The slots are visited in a scrambled order, so that the prefetcher cannot follow.
-/

namespace LinuxInterview.SideChannel
open Library

/-- A `uint64_t`, whose `~0ULL` is the top. -/
abbrev Cycles := Fin (2 ^ 64)

def scrambled (i : Nat) : Nat := (i * 167 + 13) &&& 255

/-- One turn of both loops. The slot -1 is `none`. -/
def probeSlot (threshold : Cycles) (time : Nat → Cycles) (b : Best Nat Cycles) (slot : Nat) : Best Nat Cycles :=
  if time slot < threshold ∧ time slot < b.time then ⟨some slot, time slot⟩ else b

def reloadScan (threshold : Cycles) (time : Nat → Cycles) : Option Nat :=
  ((List.range 256).foldl (fun b i => probeSlot threshold time b (scrambled i)) ⟨none, ⊤⟩).candidate

def reload (threshold : Cycles) (time : Nat → Cycles) : Option Nat :=
  ((List.range' 1 255).foldl (fun b i =>
    if scrambled i = 0 then b else probeSlot threshold time b (scrambled i)) ⟨none, ⊤⟩).candidate

/-! ## The slots that are visited -/

/-- The position at which a slot is visited, where 23 is the inverse of 167. -/
def position (slot : Nat) : Nat := ((slot + 243) * 23) &&& 255

theorem scrambled_position : ∀ slot < 256, scrambled (position slot) = slot := by decide +kernel

theorem position_scrambled : ∀ i < 256, position (scrambled i) = i := by decide +kernel

theorem scrambled_lt (i : Nat) : scrambled i < 256 := Nat.and_lt_two_pow _ (by decide : 255 < 2 ^ 8)

theorem position_lt (slot : Nat) : position slot < 256 := Nat.and_lt_two_pow _ (by decide : 255 < 2 ^ 8)

theorem mem_scanned {slot : Nat} : slot ∈ (List.range 256).map scrambled ↔ slot < 256 := by
  rw [List.mem_map]
  constructor
  · rintro ⟨i, _, rfl⟩
    exact scrambled_lt i
  · exact fun inside => ⟨position slot, List.mem_range.mpr (position_lt slot), scrambled_position slot inside⟩

/-- Slot 13 is the one of the position that is left out. -/
theorem mem_reloaded {slot : Nat} :
    slot ∈ ((List.range' 1 255).map scrambled).filter (· ≠ 0) ↔ slot < 256 ∧ slot ≠ 0 ∧ slot ≠ 13 := by
  rw [List.mem_filter, List.mem_map, decide_eq_true_eq]
  constructor
  · rintro ⟨⟨i, visited, rfl⟩, nonzero⟩
    have bounds := List.mem_range'_1.mp visited
    refine ⟨scrambled_lt i, nonzero, fun same => ?_⟩
    have back := position_scrambled i bounds.2
    rw [same] at back
    exact absurd bounds.1 (by rw [← back]; decide)
  · rintro ⟨inside, nonzero, other⟩
    have there := scrambled_position slot inside
    have later : position slot ≠ 0 := by
      intro first
      rw [first] at there
      exact other there.symm
    refine ⟨⟨position slot, List.mem_range'_1.mpr ⟨Nat.pos_of_ne_zero later, position_lt slot⟩, there⟩, nonzero⟩

theorem reloadScan_eq (threshold : Cycles) (time : Nat → Cycles) :
    reloadScan threshold time = (scan threshold time ((List.range 256).map scrambled)).candidate := by
  rw [reloadScan, scan, List.foldl_map]
  rfl

theorem reload_eq (threshold : Cycles) (time : Nat → Cycles) : reload threshold time =
    (scan threshold time (((List.range' 1 255).map scrambled).filter (· ≠ 0))).candidate := by
  rw [reload, scan, List.foldl_filter, List.foldl_map]
  simp only [decide_not, Bool.not_eq_true', decide_eq_false_iff_not, ite_not]
  rfl

/-! ## What is received -/

def slots : Set Nat := {slot | slot < 256}

def nonzeroSlots : Set Nat := {slot | 1 ≤ slot ∧ slot < 256}

theorem isFastest_reloadScan (threshold : Cycles) (time : Nat → Cycles) :
    IsFastest threshold time slots (reloadScan threshold time) := by
  have visited : {slot | slot ∈ (List.range 256).map scrambled} = slots := Set.ext fun _ => mem_scanned
  rw [reloadScan_eq, ← visited]
  exact isFastest_scan _

theorem receivers_fastest_iff (threshold : Cycles) (time : Nat → Cycles) :
    IsFastest threshold time slots (reloadScan threshold time) ∧
      IsFastest threshold time nonzeroSlots (reload threshold time) ↔
    ¬ time 13 < threshold ∨ ∃ slot, 1 ≤ slot ∧ slot < 256 ∧ slot ≠ 13 ∧ time slot ≤ time 13 := by
  let reloaded : Set Nat := {slot | slot ∈ ((List.range' 1 255).map scrambled).filter (· ≠ 0)}
  have fastest : IsFastest threshold time reloaded (reload threshold time) := by
    rw [reload_eq]
    exact isFastest_scan _
  have whole : nonzeroSlots = insert 13 reloaded := by
    ext slot
    rw [Set.mem_insert_iff, Set.mem_ofPred_eq, mem_reloaded, nonzeroSlots, Set.mem_ofPred_eq]
    omega
  rw [and_iff_right (isFastest_reloadScan threshold time), whole, isFastest_insert_iff fastest]
  refine or_congr_right (exists_congr fun slot => ?_)
  rw [Set.mem_ofPred_eq, mem_reloaded]
  constructor
  · rintro ⟨⟨inside, nonzero, other⟩, asFast⟩
    exact ⟨Nat.pos_of_ne_zero nonzero, inside, other, asFast⟩
  · rintro ⟨nonzero, inside, other, asFast⟩
    exact ⟨⟨inside, Nat.ne_of_gt nonzero, other⟩, asFast⟩

def thirteen (slot : Nat) : Cycles := if slot = 13 then 40 else 300

theorem thirteen_not_received :
    ¬ (IsFastest 100 thirteen slots (reloadScan 100 thirteen) ∧
      IsFastest 100 thirteen nonzeroSlots (reload 100 thirteen)) := by
  have nothing : reload 100 thirteen = none := by decide +kernel
  rintro ⟨_, absent, _⟩
  exact absent.mp nothing 13 ⟨by decide, by decide⟩ (by decide)

end LinuxInterview.SideChannel
