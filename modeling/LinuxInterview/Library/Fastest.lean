import Mathlib.Tactic

/-!
# The fastest of the candidates

A scan keeps the fastest candidate so far among those below a threshold.
-/

namespace LinuxInterview.Library

variable {ι τ : Type*} [LinearOrder τ]

/-- What a scan is to answer: none where no candidate is below the threshold, and otherwise one below it
that no other is faster than. -/
def IsFastest (threshold : τ) (time : ι → τ) (candidates : Set ι) (answer : Option ι) : Prop :=
  (answer = none ↔ ∀ i ∈ candidates, ¬ time i < threshold) ∧
    ∀ i ∈ answer, i ∈ candidates ∧ time i < threshold ∧ ∀ j ∈ candidates, time i ≤ time j

variable {threshold : τ} {time : ι → τ}

/-- A scan that leaves one candidate out is right just where that one is slow, or no faster than some
other. -/
theorem isFastest_insert_iff {candidates : Set ι} {answer : Option ι} {left : ι}
    (fastest : IsFastest threshold time candidates answer) :
    IsFastest threshold time (insert left candidates) answer ↔
      ¬ time left < threshold ∨ ∃ i ∈ candidates, time i ≤ time left := by
  obtain ⟨absent, found⟩ := fastest
  constructor
  · rintro ⟨absent', found'⟩
    by_contra both
    obtain ⟨below, faster⟩ := not_or.mp both
    rw [not_not] at below
    cases answer with
    | none => exact absent'.mp rfl left (Set.mem_insert _ _) below
    | some i =>
        exact faster ⟨i, (found i rfl).1, (found' i rfl).2.2 left (Set.mem_insert _ _)⟩
  · intro harmless
    refine ⟨?_, fun i answered => ?_⟩
    · rw [absent, Set.forall_mem_insert]
      refine ⟨fun slow => ⟨?_, slow⟩, And.right⟩
      rcases harmless with slowLeft | ⟨i, member, asFast⟩
      · exact slowLeft
      · exact fun below => slow i member (asFast.trans_lt below)
    · obtain ⟨member, below, least⟩ := found i answered
      refine ⟨Set.mem_insert_of_mem _ member, below, Set.forall_mem_insert.mpr ⟨?_, least⟩⟩
      rcases harmless with slowLeft | ⟨j, other, asFast⟩
      · exact below.le.trans (not_lt.mp slowLeft)
      · exact (least j other).trans asFast

structure Best (ι τ : Type*) where
  candidate : Option ι
  time : τ

def Best.probe (threshold : τ) (time : ι → τ) (b : Best ι τ) (i : ι) : Best ι τ :=
  if time i < threshold ∧ time i < b.time then ⟨some i, time i⟩ else b

variable [OrderTop τ]

def Best.start : Best ι τ := ⟨none, ⊤⟩

def scan (threshold : τ) (time : ι → τ) (candidates : List ι) : Best ι τ :=
  candidates.foldl (Best.probe threshold time) .start

theorem scan_time (threshold : τ) (time : ι → τ) (candidates : List ι) :
    (∀ i ∈ (scan threshold time candidates).candidate,
      i ∈ candidates ∧ time i < threshold ∧ (scan threshold time candidates).time = time i) ∧
    ((scan threshold time candidates).candidate = none → (scan threshold time candidates).time = ⊤) ∧
    ∀ i ∈ candidates, time i < threshold → (scan threshold time candidates).time ≤ time i := by
  induction candidates using List.reverseRecOn with
  | nil => simp [scan, Best.start]
  | append_singleton candidates last ih =>
      obtain ⟨answered, unanswered, bounded⟩ := ih
      have step : scan threshold time (candidates ++ [last]) =
          (scan threshold time candidates).probe threshold time last := by
        rw [scan, List.foldl_append]
        rfl
      rw [step, Best.probe]
      split
      · rename_i faster
        refine ⟨?_, fun nothing => by simp at nothing, ?_⟩
        · rintro i ⟨⟩
          exact ⟨by simp, faster.1, rfl⟩
        · intro i member below
          rcases List.mem_append.mp member with earlier | here
          · exact faster.2.le.trans (bounded i earlier below)
          · rw [List.mem_singleton.mp here]
      · rename_i slower
        refine ⟨fun i found => ?_, unanswered, ?_⟩
        · obtain ⟨member, rest⟩ := answered i found
          exact ⟨List.mem_append_left _ member, rest⟩
        · intro i member below
          rcases List.mem_append.mp member with earlier | here
          · exact bounded i earlier below
          · rw [List.mem_singleton.mp here] at below ⊢
            exact not_lt.mp fun faster => slower ⟨below, faster⟩

theorem isFastest_scan (candidates : List ι) :
    IsFastest threshold time {i | i ∈ candidates} (scan threshold time candidates).candidate := by
  obtain ⟨answered, unanswered, bounded⟩ := scan_time threshold time candidates
  refine ⟨⟨fun nothing i member below => ?_, fun slow => ?_⟩, fun i found => ?_⟩
  · -- a time below the threshold is below the one the scan starts with
    have top := bounded i member below
    rw [unanswered nothing, top_le_iff] at top
    exact absurd (top ▸ below) not_top_lt
  · by_contra something
    obtain ⟨i, found⟩ := Option.ne_none_iff_exists'.mp something
    obtain ⟨member, below, _⟩ := answered i found
    exact slow i member below
  · obtain ⟨member, below, kept⟩ := answered i found
    refine ⟨member, below, fun j candidate => ?_⟩
    by_cases slow : time j < threshold
    · exact kept ▸ bounded j candidate slow
    · exact below.le.trans (not_lt.mp slow)

end LinuxInterview.Library
