import Mathlib.Tactic

/-!
# Run lengths

A list of keys is kept as its runs, and each key added lengthens the last run or opens a new one.
-/

namespace LinuxInterview.Library

variable {α β : Type*}

def expandRuns (runs : List (α × ℕ)) : List α :=
  runs.flatMap fun run => List.replicate run.2 run.1

def pushRun [DecidableEq α] (runs : List (α × ℕ)) (a : α) : List (α × ℕ) :=
  match runs.getLast? with
  | none => [(a, 1)]
  | some (b, n) => if b = a then runs.dropLast ++ [(b, n + 1)] else runs ++ [(a, 1)]

def runsOf [DecidableEq α] (keys : List α) : List (α × ℕ) := keys.foldl pushRun []

/-- The values go out in order, to each run as many as it is long. -/
def deal : List (α × ℕ) → List β → List (α × β)
  | [], _ => []
  | (a, n) :: runs, values => (values.take n).map (a, ·) ++ deal runs (values.drop n)

theorem expandRuns_cons (a : α) (n : ℕ) (runs : List (α × ℕ)) :
    expandRuns ((a, n) :: runs) = List.replicate n a ++ expandRuns runs := by
  rw [expandRuns, List.flatMap_cons, ← expandRuns]

theorem length_expandRuns (runs : List (α × ℕ)) : (expandRuns runs).length = (runs.map Prod.snd).sum := by
  induction runs with
  | nil => rfl
  | cons run runs ih => simp [expandRuns]

theorem deal_eq_zip (runs : List (α × ℕ)) (values : List β) :
    deal runs values = (expandRuns runs).zip values := by
  induction runs generalizing values with
  | nil => simp [deal, expandRuns]
  | cons run runs ih =>
      obtain ⟨a, n⟩ := run
      rw [deal, ih, expandRuns_cons]
      induction n generalizing values with
      | zero => rfl
      | succ n shorter =>
          cases values with
          | nil => simp
          | cons value values => exact congrArg ((a, value) :: ·) (shorter values)

/-- No more is read than the runs are long. -/
theorem deal_take (runs : List (α × ℕ)) (values : List β) :
    deal runs (values.take (runs.map Prod.snd).sum) = deal runs values := by
  rw [deal_eq_zip, deal_eq_zip, ← length_expandRuns]
  generalize expandRuns runs = keys
  induction keys generalizing values with
  | nil => rfl
  | cons key keys ih =>
      cases values with
      | nil => rfl
      | cons value values => exact congrArg ((key, value) :: ·) (ih values)

variable [DecidableEq α]

theorem pushRun_concat (runs : List (α × ℕ)) (b : α) (n : ℕ) (a : α) :
    pushRun (runs ++ [(b, n)]) a =
      if b = a then runs ++ [(b, n + 1)] else runs ++ [(b, n)] ++ [(a, 1)] := by
  simp [pushRun]

/-- Either the last run is the key's and grows, or a run of one opens. -/
theorem pushRun_cases (runs : List (α × ℕ)) (a : α) :
    (∃ others n, runs = others ++ [(a, n)] ∧ pushRun runs a = others ++ [(a, n + 1)]) ∨
      (runs.map Prod.fst).getLast? ≠ some a ∧ pushRun runs a = runs ++ [(a, 1)] := by
  induction runs using List.reverseRecOn with
  | nil => exact .inr ⟨nofun, rfl⟩
  | append_singleton others last _ =>
      obtain ⟨b, n⟩ := last
      rw [pushRun_concat]
      by_cases same : b = a
      · subst same
        exact .inl ⟨others, n, rfl, if_pos rfl⟩
      · exact .inr ⟨by simpa using same, if_neg same⟩

theorem expandRuns_pushRun (runs : List (α × ℕ)) (a : α) :
    expandRuns (pushRun runs a) = expandRuns runs ++ [a] := by
  rcases pushRun_cases runs a with ⟨others, n, rfl, pushed⟩ | ⟨-, pushed⟩
  · simp [pushed, expandRuns, List.replicate_succ']
  · simp [pushed, expandRuns]

theorem length_pushRun (runs : List (α × ℕ)) (a : α) : (pushRun runs a).length ≤ runs.length + 1 := by
  rcases pushRun_cases runs a with ⟨others, n, rfl, pushed⟩ | ⟨-, pushed⟩ <;> simp [pushed]

theorem distinct_pushRun {runs : List (α × ℕ)} (distinct : (runs.map Prod.fst).IsChain (· ≠ ·)) (a : α) :
    ((pushRun runs a).map Prod.fst).IsChain (· ≠ ·) := by
  rcases pushRun_cases runs a with ⟨others, n, rfl, pushed⟩ | ⟨other, pushed⟩
  · simpa [pushed] using distinct
  · rw [pushed, List.map_append, List.map_singleton]
    apply distinct.append (.singleton a)
    intro b last c first
    obtain rfl : a = c := by simpa using first
    rintro rfl
    exact other last

theorem runsOf_concat (keys : List α) (a : α) : runsOf (keys ++ [a]) = pushRun (runsOf keys) a := by
  simp [runsOf]

theorem expandRuns_runsOf (keys : List α) : expandRuns (runsOf keys) = keys := by
  induction keys using List.reverseRecOn with
  | nil => rfl
  | append_singleton keys a ih => rw [runsOf_concat, expandRuns_pushRun, ih]

theorem length_runsOf (keys : List α) : (runsOf keys).length ≤ keys.length := by
  induction keys using List.reverseRecOn with
  | nil => exact le_rfl
  | append_singleton keys a ih =>
      rw [runsOf_concat, List.length_append]
      exact (length_pushRun _ a).trans (Nat.succ_le_succ ih)

theorem deal_runsOf (keys : List α) (values : List β) : deal (runsOf keys) values = keys.zip values := by
  rw [deal_eq_zip, expandRuns_runsOf]

theorem sum_runsOf (keys : List α) : ((runsOf keys).map Prod.snd).sum = keys.length := by
  rw [← length_expandRuns, expandRuns_runsOf]

theorem distinct_runsOf (keys : List α) : ((runsOf keys).map Prod.fst).IsChain (· ≠ ·) := by
  induction keys using List.reverseRecOn with
  | nil => exact .nil
  | append_singleton keys a ih =>
      rw [runsOf_concat]
      exact distinct_pushRun ih a

end LinuxInterview.Library
