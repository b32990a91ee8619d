import LinuxInterview.Library.Tally

/-!
# The winner of a vote, and the one after it

Both are found in one pass. A candidate displaces another only with more votes.
-/

namespace LinuxInterview.Library

variable {ι τ : Type*} [LinearOrder τ] (votes : ι → τ)

/-- The first two of a list with the most votes; a list of one has no second. -/
def topTwo : Option ι × Option ι → ι → Option ι × Option ι
  | (none, _), i => (some i, none)
  | (some best, second), i =>
      if votes best < votes i then (some i, some best)
      else
        match second with
        | none => (some best, some i)
        | some next => if votes next < votes i then (some best, some i) else (some best, some next)

variable {votes}

variable (votes) in
theorem fst_topTwo (candidates : List ι) :
    (candidates.foldl (topTwo votes) (none, none)).1 = candidates.argmax votes := by
  induction candidates using List.reverseRecOn with
  | nil => rfl
  | append_singleton candidates last ih =>
      rw [List.foldl_append, List.argmax_concat, ← ih]
      rcases candidates.foldl (topTwo votes) (none, none) with ⟨_ | best, second⟩
      · rfl
      · simp only [List.foldl_cons, List.foldl_nil, topTwo]
        split
        · rfl
        · cases second with
          | none => rfl
          | some next =>
              dsimp only
              split <;> rfl

/-- The second one leads all the others but the winner. -/
structure IsSecond (votes : ι → τ) (candidates : List ι) (best : ι) (second : Option ι) : Prop where
  other : ∀ next ∈ second, next ∈ candidates ∧ next ≠ best
  leads : ∀ i ∈ candidates, i ≠ best → ∃ next ∈ second, votes i ≤ votes next

namespace IsSecond

variable {candidates : List ι} {last best next : ι} {second : Option ι}

theorem displaced (leads : best ∈ candidates.argmax votes) (fresh : ∀ i ∈ candidates, i ≠ last) :
    IsSecond votes (candidates ++ [last]) last (some best) := by
  have member : best ∈ candidates := List.argmax_mem leads
  refine ⟨?_, fun i inside other => ⟨best, rfl, ?_⟩⟩
  · rintro next ⟨⟩
    exact ⟨List.mem_append_left _ member, fresh best member⟩
  · have earlier : i ∈ candidates := by simpa [other] using inside
    exact List.le_of_mem_argmax earlier leads

theorem newcomer (fresh : last ≠ best) (behind : ∀ i ∈ candidates, i ≠ best → votes i ≤ votes last) :
    IsSecond votes (candidates ++ [last]) best (some last) := by
  refine ⟨?_, fun i inside other => ⟨last, rfl, ?_⟩⟩
  · rintro next ⟨⟩
    exact ⟨by simp, fresh⟩
  · rcases List.mem_append.mp inside with earlier | here
    · exact behind i earlier other
    · rw [List.mem_singleton.mp here]

theorem stays (second : IsSecond votes candidates best (some next)) (fewer : votes last ≤ votes next) :
    IsSecond votes (candidates ++ [last]) best (some next) := by
  refine ⟨?_, fun i inside other => ⟨next, rfl, ?_⟩⟩
  · rintro i ⟨⟩
    exact (second.other next rfl).imp_left (List.mem_append_left _)
  · rcases List.mem_append.mp inside with earlier | here
    · obtain ⟨_, ⟨⟩, led⟩ := second.leads i earlier other
      exact led
    · rw [List.mem_singleton.mp here]
      exact fewer

end IsSecond

theorem isSecond_topTwo {candidates : List ι} (nodup : candidates.Nodup) {best : ι} {second : Option ι}
    (found : candidates.foldl (topTwo votes) (none, none) = (some best, second)) :
    IsSecond votes candidates best second := by
  induction candidates using List.reverseRecOn generalizing best second with
  | nil => cases found
  | append_singleton candidates last ih =>
      have distinct := List.nodup_append.mp nodup
      have fresh : ∀ i ∈ candidates, i ≠ last := fun i member => distinct.2.2 i member last (List.mem_singleton_self _)
      have winner := fst_topTwo votes candidates
      rw [List.foldl_append] at found
      rcases before : candidates.foldl (topTwo votes) (none, none) with ⟨_ | leader, second'⟩
      · rw [before] at found winner
        cases found
        obtain rfl := List.argmax_eq_none.mp winner.symm
        exact ⟨nofun, by simp⟩
      · rw [before] at found winner
        have member : leader ∈ candidates := List.argmax_mem winner.symm
        have ahead := ih distinct.1 before
        simp only [List.foldl_cons, List.foldl_nil, topTwo] at found
        split at found
        case isTrue =>
          cases found
          exact .displaced winner.symm fresh
        case isFalse =>
          cases second' with
          | none =>
              obtain ⟨rfl, rfl⟩ : leader = best ∧ some last = second := by simpa using found
              refine .newcomer (fresh leader member).symm fun i inside other => ?_
              obtain ⟨next, ⟨⟩, -⟩ := ahead.leads i inside other
          | some next =>
              dsimp only at found
              split at found
              case isTrue more =>
                obtain ⟨rfl, rfl⟩ : leader = best ∧ some last = second := by simpa using found
                refine .newcomer (fresh leader member).symm fun i inside other => ?_
                obtain ⟨_, ⟨⟩, led⟩ := ahead.leads i inside other
                exact led.trans more.le
              case isFalse fewer =>
                obtain ⟨rfl, rfl⟩ : leader = best ∧ some next = second := by simpa using found
                exact ahead.stays (not_lt.mp fewer)

/-! ## Candidates that are numbers -/

/-- The first of the numbers below `n` with the most votes. -/
structure Wins (votes : ℕ → τ) (n v : ℕ) : Prop where
  inside : v < n
  most : ∀ u < n, votes u ≤ votes v
  first : ∀ u < v, votes u < votes v

theorem Wins.unique {votes : ℕ → τ} {n v w : ℕ} (one : Wins votes n v) (other : Wins votes n w) : v = w := by
  rcases lt_trichotomy v w with less | same | more
  · exact absurd (other.first v less) (not_lt.mpr (one.most w other.inside))
  · exact same
  · exact absurd (one.first w more) (not_lt.mpr (other.most v one.inside))

theorem Wins.congr {votes votes' : ℕ → τ} {n v : ℕ} (wins : Wins votes n v) (same : ∀ u < n, votes' u = votes u) :
    Wins votes' n v where
  inside := wins.inside
  most u inside := by
    rw [same u inside, same v wins.inside]
    exact wins.most u inside
  first u less := by
    rw [same u (less.trans wins.inside), same v wins.inside]
    exact wins.first u less

theorem wins_congr {votes votes' : ℕ → τ} {n v : ℕ} (same : ∀ u < n, votes' u = votes u) :
    Wins votes' n v ↔ Wins votes n v :=
  ⟨fun wins => wins.congr fun u inside => (same u inside).symm, fun wins => wins.congr same⟩

theorem wins_of_argmax {votes : ℕ → τ} {n v : ℕ} (found : (List.range n).argmax votes = some v) : Wins votes n v := by
  have member : v < n := List.mem_range.mp (List.argmax_mem found)
  refine ⟨member, fun u inside => List.le_of_mem_argmax (List.mem_range.mpr inside) found, fun u less => ?_⟩
  by_contra asMany
  have inside := less.trans member
  have position : ∀ k < n, (List.range n).idxOf k = k := by
    intro k below
    have back := (List.nodup_range (n := n)).idxOf_getElem k (by simpa using below)
    rwa [List.getElem_range] at back
  have later := List.index_of_argmax found (List.mem_range.mpr inside) (not_lt.mp asMany)
  rw [position v member, position u inside] at later
  exact absurd less (not_lt.mpr later)

theorem argmax_range {votes : ℕ → τ} {n v : ℕ} : (List.range n).argmax votes = some v ↔ Wins votes n v := by
  constructor
  · exact wins_of_argmax
  · intro wins
    cases found : (List.range n).argmax votes with
    | none =>
        have inside := List.mem_range.mpr wins.inside
        rw [List.argmax_eq_none.mp found] at inside
        cases inside
    | some w => rw [(wins_of_argmax found).unique wins]

/-- A scan that starts with the first number instead of with none. -/
theorem foldl_argmax {votes : ℕ → τ} {n : ℕ} (some_ : 0 < n) :
    some ((List.range n).foldl (fun best i => if votes best < votes i then i else best) 0) =
      (List.range n).argmax votes := by
  obtain ⟨n, rfl⟩ := Nat.exists_eq_add_of_lt some_
  rw [Nat.zero_add]
  clear some_
  induction n with
  | zero => simp
  | succ n ih =>
      rw [List.range_succ, List.argmax_concat, ← ih, List.foldl_append]
      simp only [List.foldl_cons, List.foldl_nil]
      split <;> rfl

/-! ## Votes that are cast in rounds -/

variable [DecidableEq ι]

/-- Everybody in the list votes for itself or not. -/
def castVotes (ballot : ι → Bool) (voters : List ι) (counts : ι → ℕ) : ι → ℕ :=
  voters.foldl (fun counts i => if ballot i then Function.update counts i (counts i + 1) else counts) counts

theorem castVotes_apply (ballot : ι → Bool) {voters : List ι} (nodup : voters.Nodup) (counts : ι → ℕ) (i : ι) :
    castVotes ballot voters counts i = counts i + if i ∈ voters ∧ ballot i = true then 1 else 0 := by
  induction voters generalizing counts with
  | nil => simp [castVotes]
  | cons head voters ih =>
      obtain ⟨fresh, nodup⟩ := List.nodup_cons.mp nodup
      have rest := ih nodup (if ballot head then Function.update counts head (counts head + 1) else counts)
      rw [castVotes, List.foldl_cons, ← castVotes, rest]
      rcases eq_or_ne i head with rfl | other
      · cases ballot i <;> simp [fresh]
      · cases ballot head <;> simp [other]

theorem foldl_castVotes (ballot : ℕ → ι → Bool) {voters : List ι} (nodup : voters.Nodup) (n : ℕ) (i : ι) :
    (List.range n).foldl (fun counts round => castVotes (ballot round) voters counts) 0 i =
      if i ∈ voters then (List.range n).countP (ballot · i) else 0 := by
  induction n with
  | zero => simp
  | succ n ih =>
      rw [List.range_succ, List.foldl_append, List.foldl_cons, List.foldl_nil, castVotes_apply _ nodup, ih,
        List.countP_append]
      by_cases voter : i ∈ voters
      · by_cases voted : ballot n i = true <;> simp [voter, voted]
      · simp [voter]

end LinuxInterview.Library
