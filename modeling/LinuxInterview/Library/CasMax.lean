import LinuxInterview.Library.Runs

/-!
# A maximum kept by compare-and-swap

Any number of parties offer values to one cell. A party reads the cell, leaves where its value is no
higher, and otherwise swaps its value for the one it read, from the beginning where the cell has changed
in between.
-/

namespace LinuxInterview.Library

inductive Attempt (τ : Type*)
  | done
  | reading (c : τ)
  | swapping (c m : τ)

def Attempt.offered {τ : Type*} : Attempt τ → Option τ
  | .done => none
  | .reading c | .swapping c _ => some c

structure MaxCell (ι τ : Type*) where
  stored : τ
  attempt : ι → Attempt τ

inductive MaxEvent (ι τ : Type*)
  | offer (i : ι) (c : τ)
  | read (i : ι)
  | swap (i : ι)

namespace MaxCell

variable {ι τ : Type*}

def start (init : τ) : MaxCell ι τ := ⟨init, fun _ => .done⟩

def offers (events : List (MaxEvent ι τ)) : List τ :=
  events.filterMap fun
    | .offer _ c => some c
    | _ => none

theorem offers_silent {e : MaxEvent ι τ} (silent : ∀ i c, e ≠ .offer i c) (events : List (MaxEvent ι τ)) :
    offers (events ++ [e]) = offers events := by
  cases e with
  | offer i c => exact absurd rfl (silent i c)
  | read i => simp [offers]
  | swap i => simp [offers]

variable [LinearOrder τ]

/-- Every value that was offered is stored or lower, or a party is still at one that is no lower. -/
structure Tracks (init : τ) (events : List (MaxEvent ι τ)) (s : MaxCell ι τ) : Prop where
  stored_mem : s.stored ∈ init :: offers events
  offered_mem : ∀ i c, (s.attempt i).offered = some c → c ∈ offers events
  above : ∀ i c m, s.attempt i = .swapping c m → m < c
  covered : ∀ v ∈ init :: offers events, v ≤ s.stored ∨ ∃ i c, (s.attempt i).offered = some c ∧ v ≤ c

variable {init : τ} {events : List (MaxEvent ι τ)} {s s' : MaxCell ι τ}

theorem tracks_start : Tracks init [] (start init : MaxCell ι τ) where
  stored_mem := List.mem_cons_self
  offered_mem i c offered := by cases offered
  above i c m swapping := by cases swapping
  covered v member := by
    obtain rfl := List.mem_singleton.mp member
    exact Or.inl le_rfl

theorem Tracks.isGreatest (tracks : Tracks init events s) (quiet : ∀ i, (s.attempt i).offered = none) :
    IsGreatest {v | v ∈ init :: offers events} s.stored := by
  refine ⟨tracks.stored_mem, fun v member => ?_⟩
  rcases tracks.covered v member with below | ⟨i, c, offered, _⟩
  · exact below
  · rw [quiet i] at offered
    cases offered

theorem Tracks.silent (tracks : Tracks init events s) {e : MaxEvent ι τ} (silent : ∀ i c, e ≠ .offer i c) :
    Tracks init (events ++ [e]) s := by
  have same := offers_silent silent events
  exact ⟨same ▸ tracks.stored_mem, same ▸ tracks.offered_mem, tracks.above, same ▸ tracks.covered⟩

end MaxCell

namespace MaxCell
variable {ι τ : Type*} [DecidableEq ι]

def put (s : MaxCell ι τ) (i : ι) (a : Attempt τ) (stored : τ) : MaxCell ι τ :=
  ⟨stored, Function.update s.attempt i a⟩

theorem put_self (s : MaxCell ι τ) (i : ι) (a : Attempt τ) (stored : τ) : (s.put i a stored).attempt i = a :=
  Function.update_self ..

theorem put_other (s : MaxCell ι τ) {i j : ι} (other : j ≠ i) (a : Attempt τ) (stored : τ) :
    (s.put i a stored).attempt j = s.attempt j := Function.update_of_ne other ..

variable [LinearOrder τ] {init : τ} {events : List (MaxEvent ι τ)} {s s' : MaxCell ι τ}

def next (s : MaxCell ι τ) : MaxEvent ι τ → Option (MaxCell ι τ)
  | .offer i c =>
      match s.attempt i with
      | .done => some (s.put i (.reading c) s.stored)
      | _ => none
  | .read i =>
      match s.attempt i with
      | .reading c =>
          some (s.put i (if c ≤ s.stored then .done else .swapping c s.stored) s.stored)
      | _ => none
  | .swap i =>
      match s.attempt i with
      | .swapping c m =>
          if s.stored = m then some (s.put i .done c)
          else some (s.put i (.reading c) s.stored)
      | _ => none

inductive Moves (s : MaxCell ι τ) : MaxEvent ι τ → MaxCell ι τ → Prop
  | offer {i : ι} (c : τ) (free : s.attempt i = .done) :
      Moves s (.offer i c) (s.put i (.reading c) s.stored)
  | leave {i : ι} {c : τ} (at_ : s.attempt i = .reading c) (low : c ≤ s.stored) :
      Moves s (.read i) (s.put i .done s.stored)
  | prepare {i : ι} {c : τ} (at_ : s.attempt i = .reading c) (high : s.stored < c) :
      Moves s (.read i) (s.put i (.swapping c s.stored) s.stored)
  | succeed {i : ι} {c : τ} (at_ : s.attempt i = .swapping c s.stored) :
      Moves s (.swap i) (s.put i .done c)
  | fail {i : ι} {c m : τ} (at_ : s.attempt i = .swapping c m) (changed : s.stored ≠ m) :
      Moves s (.swap i) (s.put i (.reading c) s.stored)

theorem moves_of_fires {s s' : MaxCell ι τ} {e : MaxEvent ι τ} (fired : Fires next s e s') : Moves s e s' := by
  cases e with
  | offer i c =>
      simp only [Fires, next] at fired
      split at fired
      · cases fired
        exact .offer c ‹_›
      · cases fired
  | read i =>
      simp only [Fires, next] at fired
      split at fired
      · cases fired
        split
        · exact .leave ‹_› ‹_›
        · exact .prepare ‹_› (not_le.mp ‹_›)
      · cases fired
  | swap i =>
      simp only [Fires, next] at fired
      split at fired
      · split at fired
        · rename_i unchanged
          cases fired
          exact .succeed (unchanged ▸ ‹_›)
        · cases fired
          exact .fail ‹_› ‹_›
      · cases fired

theorem Tracks.proceed (tracks : Tracks init events s) {i : ι} {c : τ} (at_ : (s.attempt i).offered = some c)
    {attempt : Attempt τ} {stored : τ} (grown : s.stored ≤ stored) (written : stored = s.stored ∨ stored = c)
    (kept : attempt.offered = some c ∨ attempt.offered = none ∧ c ≤ stored)
    (higher : ∀ c' m, attempt = .swapping c' m → m < c') :
    Tracks init events (s.put i attempt stored) where
  stored_mem := by
    rcases written with rfl | rfl
    · exact tracks.stored_mem
    · exact List.mem_cons_of_mem _ (tracks.offered_mem i stored at_)
  offered_mem j c' offered := by
    by_cases same : j = i
    · subst same
      rw [put_self] at offered
      rcases kept with carried | ⟨left, _⟩
      · rw [carried] at offered
        cases offered
        exact tracks.offered_mem j c at_
      · rw [left] at offered
        cases offered
    · rw [put_other s same] at offered
      exact tracks.offered_mem j c' offered
  above j c' m swapping := by
    by_cases same : j = i
    · subst same
      rw [put_self] at swapping
      exact higher c' m swapping
    · rw [put_other s same] at swapping
      exact tracks.above j c' m swapping
  covered v member := by
    rcases tracks.covered v member with below | ⟨j, c', offered, below⟩
    · exact Or.inl (below.trans grown)
    · by_cases same : j = i
      · subst same
        rw [at_] at offered
        cases offered
        rcases kept with carried | ⟨_, stays⟩
        · exact Or.inr ⟨j, c, by rw [put_self, carried], below⟩
        · exact Or.inl (below.trans stays)
      · exact Or.inr ⟨j, c', by rw [put_other s same, offered], below⟩

theorem Tracks.offer (tracks : Tracks init events s) {i : ι} (c : τ) (free : s.attempt i = .done) :
    Tracks init (events ++ [.offer i c]) (s.put i (.reading c) s.stored) := by
  have added : offers (events ++ [.offer i c]) = offers events ++ [c] := by simp [offers]
  constructor
  · rw [added, ← List.cons_append]
    exact List.mem_append_left _ tracks.stored_mem
  · intro j c' offered
    rw [added, List.mem_append, List.mem_singleton]
    by_cases same : j = i
    · subst same
      rw [put_self] at offered
      cases offered
      exact Or.inr rfl
    · rw [put_other s same] at offered
      exact Or.inl (tracks.offered_mem j c' offered)
  · intro j c' m swapping
    by_cases same : j = i
    · subst same
      rw [put_self] at swapping
      cases swapping
    · rw [put_other s same] at swapping
      exact tracks.above j c' m swapping
  · intro v member
    rw [added, ← List.cons_append, List.mem_append, List.mem_singleton] at member
    rcases member with earlier | rfl
    · rcases tracks.covered v earlier with below | ⟨j, c', offered, below⟩
      · exact Or.inl below
      · have other : j ≠ i := by
          rintro rfl
          rw [free] at offered
          cases offered
        exact Or.inr ⟨j, c', by rw [put_other s other, offered], below⟩
    · exact Or.inr ⟨i, v, by rw [put_self]; rfl, le_rfl⟩

theorem Tracks.step (tracks : Tracks init events s) {e : MaxEvent ι τ} (moves : Moves s e s') :
    Tracks init (events ++ [e]) s' := by
  cases moves with
  | offer c free => exact tracks.offer c free
  | leave at_ low =>
      refine (tracks.proceed (by rw [at_]; rfl) le_rfl (Or.inl rfl) (Or.inr ⟨rfl, low⟩) ?_).silent (by simp)
      exact fun _ _ swapping => by cases swapping
  | prepare at_ high =>
      refine (tracks.proceed (by rw [at_]; rfl) le_rfl (Or.inl rfl) (Or.inl rfl) ?_).silent (by simp)
      rintro _ _ ⟨⟩
      exact high
  | succeed at_ =>
      have grown := (tracks.above _ _ _ at_).le
      refine (tracks.proceed (by rw [at_]; rfl) grown (Or.inr rfl) (Or.inr ⟨rfl, le_rfl⟩) ?_).silent (by simp)
      exact fun _ _ swapping => by cases swapping
  | fail at_ changed =>
      refine (tracks.proceed (by rw [at_]; rfl) le_rfl (Or.inl rfl) (Or.inl rfl) ?_).silent (by simp)
      exact fun _ _ swapping => by cases swapping

theorem tracks_of_run (run : Run (Fires next) (start init) events s) : Tracks init events s :=
  run.history_invariant (Tracks init) tracks_start
    fun _ _ _ _ _ tracks fired => tracks.step (moves_of_fires fired)

end MaxCell

end LinuxInterview.Library
