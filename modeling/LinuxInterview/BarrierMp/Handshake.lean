import LinuxInterview.BarrierMp.Threads

/-!
# Every message is read once and in order
-/

namespace LinuxInterview.BarrierMp
open Library

def message (i : Nat) : Cell := ⟨42, .writer i⟩

namespace WriterAt

def sending : WriterAt → Bool
  | .storeData | .barrier | .storeFlag => true
  | _ => false

def stored : WriterAt → Bool
  | .barrier | .storeFlag => true
  | _ => false

def inLoop : WriterAt → Bool
  | .test | .returned => false
  | _ => true

def left : WriterAt → Nat
  | .test => 5
  | .awaitClear => 4
  | .storeData => 3
  | .barrier => 2
  | .storeFlag => 1
  | .returned => 0

end WriterAt

namespace ReaderAt

def receiving : ReaderAt → Bool
  | .test | .awaitFlag | .returned => false
  | _ => true

def loaded : ReaderAt → Bool
  | .countObserved | .countViolation | .clearData | .clearFlag => true
  | _ => false

def counted : ReaderAt → Bool
  | .countViolation | .clearData | .clearFlag => true
  | _ => false

def inLoop : ReaderAt → Bool
  | .test | .returned => false
  | _ => true

def left : ReaderAt → Nat
  | .test => 8
  | .awaitFlag => 7
  | .barrier => 6
  | .loadData => 5
  | .countObserved => 4
  | .countViolation => 3
  | .clearData => 2
  | .clearFlag => 1
  | .returned => 0

end ReaderAt

namespace State

def Turn (s : State) : Prop :=
  s.flag = 0 ∧ s.writerI = s.readerI ∨ s.flag = 1 ∧ s.writerI = s.readerI + 1

def Complete (s : State) : Prop := s.writerAt = .returned ∧ s.readerAt = .returned

def work (iters : Nat) (s : State) : Nat :=
  6 * (iters - s.writerI) + s.writerAt.left + (9 * (iters - s.readerI) + s.readerAt.left)

end State

structure Protocol (s : State) : Prop where
  turn : s.Turn
  sending : s.writerAt.sending = true → s.flag = 0
  receiving : s.readerAt.receiving = true → s.flag = 1
  stored : s.writerAt.stored = true → s.data = message s.writerI
  arrived : s.flag = 1 → s.readerAt ≠ .clearFlag → s.data = message s.readerI
  loaded : s.readerAt.loaded = true → s.d = message s.readerI

structure Bounds (iters : Nat) (s : State) : Prop where
  written : s.writerI ≤ iters
  writing : s.writerAt.inLoop = true → s.writerI < iters
  allWritten : s.writerAt = .returned → s.writerI = iters
  read : s.readerI ≤ iters
  reading : s.readerAt.inLoop = true → s.readerI < iters
  allRead : s.readerAt = .returned → s.readerI = iters

structure Counters (s : State) : Prop where
  observations : s.observations =
    (List.range (s.readerI + s.readerAt.loaded.toNat)).map message
  observed : s.observed = s.readerI + s.readerAt.counted.toNat
  violations : s.violations = 0

variable {mode : Mode} {iters : Nat} {s s' : State}

/-! ## The moves of the threads -/

inductive WriterMoves (mode : Mode) (iters : Nat) (s : State) : State → Prop
  | enter : s.writerAt = .test → s.writerI < iters →
      WriterMoves mode iters s { s with writerAt := .awaitClear }
  | leave : s.writerAt = .test → ¬ s.writerI < iters →
      WriterMoves mode iters s { s with writerAt := .returned }
  | spin : s.writerAt = .awaitClear → s.flag ≠ 0 → WriterMoves mode iters s s
  | awaitClear : s.writerAt = .awaitClear → s.flag = 0 →
      WriterMoves mode iters s { s with writerAt := .storeData }
  | storeData : s.writerAt = .storeData → WriterMoves mode iters s { s with
      data := message s.writerI
      writerAt := if mode = .dmb then .barrier else .storeFlag }
  | barrier : s.writerAt = .barrier → WriterMoves mode iters s { s with writerAt := .storeFlag }
  | storeFlag : s.writerAt = .storeFlag →
      WriterMoves mode iters s { s with flag := 1, writerI := s.writerI + 1, writerAt := .test }

theorem writerMoves (action : writer mode iters s = some s') : WriterMoves mode iters s s' := by
  unfold writer at action
  split at action
  case h_1 writerAt =>
    cases action
    split
    case isTrue inside => exact .enter writerAt inside
    case isFalse outside => exact .leave writerAt outside
  case h_2 writerAt =>
    cases action
    split
    case isTrue set => exact .spin writerAt set
    case isFalse clear => exact .awaitClear writerAt (not_not.mp clear)
  case h_3 writerAt =>
    cases action
    exact .storeData writerAt
  case h_4 writerAt =>
    cases action
    exact .barrier writerAt
  case h_5 writerAt =>
    cases action
    exact .storeFlag writerAt
  case h_6 => cases action

inductive ReaderMoves (mode : Mode) (iters : Nat) (s : State) : State → Prop
  | enter : s.readerAt = .test → s.readerI < iters →
      ReaderMoves mode iters s { s with readerAt := .awaitFlag }
  | leave : s.readerAt = .test → ¬ s.readerI < iters →
      ReaderMoves mode iters s { s with readerAt := .returned }
  | spin : s.readerAt = .awaitFlag → s.flag = 0 → ReaderMoves mode iters s s
  | awaitFlag : s.readerAt = .awaitFlag → s.flag ≠ 0 →
      ReaderMoves mode iters s { s with readerAt := if mode = .dmb then .barrier else .loadData }
  | barrier : s.readerAt = .barrier → ReaderMoves mode iters s { s with readerAt := .loadData }
  | loadData : s.readerAt = .loadData → ReaderMoves mode iters s { s with
      d := s.data
      observations := s.observations ++ [s.data]
      readerAt := .countObserved }
  | countObserved : s.readerAt = .countObserved →
      ReaderMoves mode iters s { s with observed := s.observed + 1, readerAt := .countViolation }
  | countViolation : s.readerAt = .countViolation → ReaderMoves mode iters s { s with
      violations := if s.d.value ≠ 42 then s.violations + 1 else s.violations
      readerAt := .clearData }
  | clearData : s.readerAt = .clearData → ReaderMoves mode iters s { s with
      data := ⟨0, .reader s.readerI⟩
      readerAt := .clearFlag }
  | clearFlag : s.readerAt = .clearFlag →
      ReaderMoves mode iters s { s with flag := 0, readerI := s.readerI + 1, readerAt := .test }

theorem readerMoves (action : reader mode iters s = some s') : ReaderMoves mode iters s s' := by
  unfold reader at action
  split at action
  case h_1 readerAt =>
    cases action
    split
    case isTrue inside => exact .enter readerAt inside
    case isFalse outside => exact .leave readerAt outside
  case h_2 readerAt =>
    cases action
    split
    case isTrue clear => exact .spin readerAt clear
    case isFalse set => exact .awaitFlag readerAt set
  case h_3 readerAt =>
    cases action
    exact .barrier readerAt
  case h_4 readerAt =>
    cases action
    exact .loadData readerAt
  case h_5 readerAt =>
    cases action
    exact .countObserved readerAt
  case h_6 readerAt =>
    cases action
    exact .countViolation readerAt
  case h_7 readerAt =>
    cases action
    exact .clearData readerAt
  case h_8 readerAt =>
    cases action
    exact .clearFlag readerAt
  case h_9 => cases action

/-! ## What the threads keep -/

namespace State

theorem Turn.writerI_of_clear (turn : s.Turn) (clear : s.flag = 0) : s.writerI = s.readerI := by
  rcases turn with ⟨_, same⟩ | ⟨set, _⟩
  · exact same
  · rw [clear] at set
    contradiction

theorem Turn.writerI_of_set (turn : s.Turn) (set : s.flag = 1) : s.writerI = s.readerI + 1 := by
  rcases turn with ⟨clear, _⟩ | ⟨_, ahead⟩
  · rw [set] at clear
    contradiction
  · exact ahead

theorem Turn.flag_of_ne (turn : s.Turn) (other : s.flag ≠ 0) : s.flag = 1 := by
  rcases turn with ⟨clear, _⟩ | ⟨set, _⟩
  · contradiction
  · exact set

end State

theorem WriterAt.sending_of_stored {w : WriterAt} (stored : w.stored = true) : w.sending = true := by
  cases w <;> simp_all [WriterAt.stored, WriterAt.sending]

theorem Protocol.exclusive (inv : Protocol s) (sending : s.writerAt.sending = true)
    (receiving : s.readerAt.receiving = true) : False := by
  have set := inv.receiving receiving
  rw [inv.sending sending] at set
  contradiction

theorem Protocol.writer (inv : Protocol s) (action : writer mode iters s = some s') : Protocol s' := by
  obtain ⟨turn, sending, receiving, stored, arrived, loaded⟩ := id inv
  cases writerMoves action with
  | enter =>
      exact ⟨turn, by simp [WriterAt.sending], receiving, by simp [WriterAt.stored], arrived, loaded⟩
  | leave =>
      exact ⟨turn, by simp [WriterAt.sending], receiving, by simp [WriterAt.stored], arrived, loaded⟩
  | spin => exact inv
  | awaitClear _ clear =>
      exact ⟨turn, fun _ => clear, receiving, by simp [WriterAt.stored], arrived, loaded⟩
  | storeData writerAt =>
      have clear := sending (by rw [writerAt]; rfl)
      refine ⟨turn, fun _ => clear, receiving, fun _ => rfl, ?_, loaded⟩
      intro set
      simp [clear] at set
  | barrier writerAt =>
      exact ⟨turn, fun _ => sending (by rw [writerAt]; rfl), receiving,
        fun _ => stored (by rw [writerAt]; rfl), arrived, loaded⟩
  | storeFlag writerAt =>
      have clear := sending (by rw [writerAt]; rfl)
      have same := turn.writerI_of_clear clear
      refine ⟨Or.inr ⟨rfl, congrArg (· + 1) same⟩, ?_, fun _ => rfl, ?_, ?_, loaded⟩
      · simp [WriterAt.sending]
      · simp [WriterAt.stored]
      · intro _ _
        simp only
        rw [stored (by rw [writerAt]; rfl), same]

theorem Protocol.reader (inv : Protocol s) (action : reader mode iters s = some s') : Protocol s' := by
  obtain ⟨turn, sending, receiving, stored, arrived, loaded⟩ := id inv
  cases readerMoves action with
  | enter readerAt | leave readerAt =>
      refine ⟨turn, sending, by simp [ReaderAt.receiving], stored, ?_, by simp [ReaderAt.loaded]⟩
      intro set _
      exact arrived set (by simp [readerAt])
  | spin => exact inv
  | awaitFlag readerAt set =>
      refine ⟨turn, sending, fun _ => turn.flag_of_ne set, stored, ?_, ?_⟩
      · intro set _
        exact arrived set (by simp [readerAt])
      · simp only
        split
        all_goals simp [ReaderAt.loaded]
  | barrier readerAt =>
      refine ⟨turn, sending, fun _ => receiving (by rw [readerAt]; rfl), stored, ?_, ?_⟩
      · intro set _
        exact arrived set (by simp [readerAt])
      · simp [ReaderAt.loaded]
  | loadData readerAt =>
      have set := receiving (by rw [readerAt]; rfl)
      have fresh := arrived set (by simp [readerAt])
      exact ⟨turn, sending, fun _ => set, stored, fun _ _ => fresh, fun _ => fresh⟩
  | countObserved readerAt | countViolation readerAt =>
      have set := receiving (by rw [readerAt]; rfl)
      exact ⟨turn, sending, fun _ => set, stored, fun _ _ => arrived set (by simp [readerAt]),
        fun _ => loaded (by rw [readerAt]; rfl)⟩
  | clearData readerAt =>
      have set := receiving (by rw [readerAt]; rfl)
      refine ⟨turn, sending, fun _ => set, ?_, ?_, fun _ => loaded (by rw [readerAt]; rfl)⟩
      · intro storing
        exact (inv.exclusive (WriterAt.sending_of_stored storing) (by rw [readerAt]; rfl)).elim
      · intro _ other
        simp at other
  | clearFlag readerAt =>
      have set := receiving (by rw [readerAt]; rfl)
      have ahead := turn.writerI_of_set set
      refine ⟨Or.inl ⟨rfl, ahead⟩, fun _ => rfl, ?_, stored, ?_, ?_⟩
      · simp [ReaderAt.receiving]
      · intro set'
        simp at set'
      · simp [ReaderAt.loaded]

theorem Bounds.writer (inv : Bounds iters s) (action : writer mode iters s = some s') :
    Bounds iters s' := by
  obtain ⟨written, writing, allWritten, read, reading, allRead⟩ := id inv
  cases writerMoves action with
  | enter _ inside => exact ⟨written, fun _ => inside, by simp, read, reading, allRead⟩
  | leave _ outside =>
      refine ⟨written, by simp [WriterAt.inLoop], fun _ => ?_, read, reading, allRead⟩
      exact le_antisymm written (Nat.le_of_not_lt outside)
  | spin => exact inv
  | storeData writerAt =>
      have inside := writing (by rw [writerAt]; rfl)
      refine ⟨written, fun _ => inside, ?_, read, reading, allRead⟩
      simp only
      split
      all_goals simp
  | awaitClear writerAt | barrier writerAt =>
      have inside := writing (by rw [writerAt]; rfl)
      exact ⟨written, fun _ => inside, by simp, read, reading, allRead⟩
  | storeFlag writerAt =>
      have inside := writing (by rw [writerAt]; rfl)
      exact ⟨inside, by simp [WriterAt.inLoop], by simp, read, reading, allRead⟩

theorem Bounds.reader (inv : Bounds iters s) (action : reader mode iters s = some s') :
    Bounds iters s' := by
  obtain ⟨written, writing, allWritten, read, reading, allRead⟩ := id inv
  cases readerMoves action with
  | enter _ inside => exact ⟨written, writing, allWritten, read, fun _ => inside, by simp⟩
  | leave _ outside =>
      refine ⟨written, writing, allWritten, read, by simp [ReaderAt.inLoop], fun _ => ?_⟩
      exact le_antisymm read (Nat.le_of_not_lt outside)
  | spin => exact inv
  | awaitFlag readerAt =>
      have inside := reading (by rw [readerAt]; rfl)
      refine ⟨written, writing, allWritten, read, fun _ => inside, ?_⟩
      simp only
      split
      all_goals simp
  | barrier readerAt | loadData readerAt | countObserved readerAt | countViolation readerAt
  | clearData readerAt =>
      have inside := reading (by rw [readerAt]; rfl)
      exact ⟨written, writing, allWritten, read, fun _ => inside, by simp⟩
  | clearFlag readerAt =>
      have inside := reading (by rw [readerAt]; rfl)
      exact ⟨written, writing, allWritten, inside, by simp [ReaderAt.inLoop], by simp⟩

theorem Counters.writer (inv : Counters s) (action : writer mode iters s = some s') : Counters s' := by
  cases writerMoves action
  all_goals exact ⟨inv.observations, inv.observed, inv.violations⟩

theorem Counters.reader (inv : Counters s) (protocol : Protocol s)
    (action : reader mode iters s = some s') : Counters s' := by
  obtain ⟨observations, observed, violations⟩ := id inv
  cases readerMoves action with
  | spin => exact inv
  | awaitFlag readerAt =>
      rw [readerAt] at observations observed
      constructor
      · simp only
        split
        all_goals exact observations
      · simp only
        split
        all_goals exact observed
      · exact violations
  | loadData readerAt =>
      rw [readerAt] at observations observed
      have set := protocol.receiving (by rw [readerAt]; rfl)
      have fresh := protocol.arrived set (by simp [readerAt])
      refine ⟨?_, observed, violations⟩
      simp only
      rw [observations, fresh]
      simp [ReaderAt.loaded, List.range_succ]
  | countObserved readerAt =>
      rw [readerAt] at observations observed
      refine ⟨observations, ?_, violations⟩
      simp only
      rw [observed]
      rfl
  | countViolation readerAt =>
      rw [readerAt] at observations observed
      have fresh := protocol.loaded (by rw [readerAt]; rfl)
      refine ⟨observations, observed, ?_⟩
      simp only
      rw [if_neg (by simp [fresh, message]), violations]
  | enter readerAt | leave readerAt | barrier readerAt | clearData readerAt | clearFlag readerAt =>
      rw [readerAt] at observations observed
      exact ⟨observations, observed, violations⟩

/-! ## Progress -/

theorem writer_waits_or_works (bounds : Bounds iters s) (action : writer mode iters s = some s') :
    s' = s ∧ s.writerAt = .awaitClear ∧ s.flag ≠ 0 ∨ s'.work iters < s.work iters := by
  cases writerMoves action with
  | spin writerAt set => exact Or.inl ⟨rfl, writerAt, set⟩
  | storeFlag writerAt =>
      have inside := bounds.writing (by rw [writerAt]; rfl)
      right
      simp only [State.work, writerAt, WriterAt.left]
      omega
  | storeData writerAt =>
      right
      simp only [State.work, writerAt]
      split
      all_goals simp [WriterAt.left]
  | enter writerAt | leave writerAt | awaitClear writerAt | barrier writerAt =>
      right
      simp [State.work, writerAt, WriterAt.left]

theorem reader_waits_or_works (bounds : Bounds iters s) (action : reader mode iters s = some s') :
    s' = s ∧ s.readerAt = .awaitFlag ∧ s.flag = 0 ∨ s'.work iters < s.work iters := by
  cases readerMoves action with
  | spin readerAt clear => exact Or.inl ⟨rfl, readerAt, clear⟩
  | awaitFlag readerAt =>
      right
      simp only [State.work, readerAt]
      split
      all_goals simp [ReaderAt.left]
  | clearFlag readerAt =>
      have inside := bounds.reading (by rw [readerAt]; rfl)
      right
      simp only [State.work, readerAt, ReaderAt.left]
      omega
  | enter readerAt | leave readerAt | barrier readerAt | loadData readerAt | countObserved readerAt
  | countViolation readerAt | clearData readerAt =>
      right
      simp [State.work, readerAt, ReaderAt.left]

theorem exists_work (protocol : Protocol s) (bounds : Bounds iters s) (going : ¬ s.Complete) :
    ∃ actor s', step mode iters s actor = some s' ∧ s'.work iters < s.work iters := by
  have writerGoes : s.writerAt ≠ .returned → ∃ s', writer mode iters s = some s' := by
    intro running
    unfold writer
    cases writerAt : s.writerAt <;> simp_all
  have readerGoes : s.readerAt ≠ .returned → ∃ s', reader mode iters s = some s' := by
    intro running
    unfold reader
    cases readerAt : s.readerAt <;> simp_all
  by_cases writerDone : s.writerAt = .returned
  · have readerRuns : s.readerAt ≠ .returned := fun returned => going ⟨writerDone, returned⟩
    obtain ⟨s', action⟩ := readerGoes readerRuns
    refine ⟨.reader, s', action, ?_⟩
    rcases reader_waits_or_works bounds action with ⟨_, waiting, clear⟩ | works
    · have inside := bounds.reading (by rw [waiting]; rfl)
      have same := protocol.turn.writerI_of_clear clear
      have all := bounds.allWritten writerDone
      omega
    · exact works
  · obtain ⟨s', action⟩ := writerGoes writerDone
    rcases writer_waits_or_works bounds action with ⟨_, waiting, set⟩ | works
    · have ahead := protocol.turn.writerI_of_set (protocol.turn.flag_of_ne set)
      have inside := bounds.writing (by rw [waiting]; rfl)
      have readerRuns : s.readerAt ≠ .returned := by
        intro returned
        have all := bounds.allRead returned
        omega
      obtain ⟨s', action⟩ := readerGoes readerRuns
      refine ⟨.reader, s', action, ?_⟩
      rcases reader_waits_or_works bounds action with ⟨_, _, clear⟩ | works
      · contradiction
      · exact works
    · exact ⟨.writer, s', action, works⟩

/-! ## The handshake -/

structure Inv (iters : Nat) (s : State) : Prop where
  protocol : Protocol s
  bounds : Bounds iters s
  counters : Counters s

theorem Inv.init (iters : Nat) : Inv iters State.init where
  protocol := ⟨Or.inl ⟨rfl, rfl⟩, fun _ => rfl, by decide, by decide, by decide, by decide⟩
  bounds := ⟨Nat.zero_le _, by simp [State.init, WriterAt.inLoop], by simp [State.init],
    Nat.zero_le _, by simp [State.init, ReaderAt.inLoop], by simp [State.init]⟩
  counters := ⟨rfl, rfl, rfl⟩

theorem Inv.step (inv : Inv iters s) {actor : Actor} (action : step mode iters s actor = some s') :
    Inv iters s' := by
  obtain ⟨protocol, bounds, counters⟩ := inv
  cases actor with
  | writer => exact ⟨protocol.writer action, bounds.writer action, counters.writer action⟩
  | reader => exact ⟨protocol.reader action, bounds.reader action, counters.reader protocol action⟩

theorem inv_of_run {actors : List Actor} (run : Runs mode iters actors s) : Inv iters s :=
  run.invariant (Inv iters) (Inv.init iters) fun _ _ _ inv action => inv.step action

/-- What holds in every state that the two threads reach. The data is reset just before the flag. -/
structure Delivers (mode : Mode) (iters : Nat) (s : State) : Prop where
  data : s.flag = 1 → s.readerAt ≠ .clearFlag → s.data.value = 42
  inOrder : ∀ k observation, s.observations[k]? = some observation → observation = message k
  progress : ¬ s.Complete → ∃ actor s', step mode iters s actor = some s' ∧
    s'.work iters < s.work iters
  complete : s.Complete → s.observations.length = iters ∧ s.observed = iters ∧ s.violations = 0

theorem messages_delivered {actors : List Actor} (run : Runs mode iters actors s) :
    Delivers mode iters s := by
  obtain ⟨protocol, bounds, counters⟩ := inv_of_run run
  refine ⟨?_, ?_, exists_work protocol bounds, ?_⟩
  · intro set before
    rw [protocol.arrived set before]
    rfl
  · intro k observation found
    rw [counters.observations, List.getElem?_map] at found
    obtain ⟨i, here, rfl⟩ := Option.map_eq_some_iff.mp found
    obtain ⟨_, rfl⟩ := List.getElem?_eq_some_iff.mp here
    rw [List.getElem_range]
  · rintro ⟨_, returned⟩
    have all := bounds.allRead returned
    refine ⟨?_, ?_, counters.violations⟩
    · rw [counters.observations, returned, all]
      simp [ReaderAt.loaded]
    · rw [counters.observed, returned, all]
      rfl

def firstMessage : List Actor := .replicate 4 .writer ++ .replicate 6 .reader

def afterRun (actors : List Actor) : State := (actors.foldlM (step .acqrel 1) State.init).getD State.init

theorem data_reset_before_flag :
    ∃ s, Runs .acqrel 1 firstMessage s ∧ s.flag = 1 ∧ s.data.value ≠ 42 :=
  ⟨afterRun firstMessage, run_of_foldlM rfl, by decide⟩

def oneRound : List Actor := firstMessage ++ [.reader, .reader, .writer]

theorem oneRound_runs : Runs .acqrel 1 oneRound (afterRun oneRound) := run_of_foldlM rfl

theorem messages_delivered_one_round :
    Delivers .acqrel 1 (afterRun oneRound) ∧ (afterRun oneRound).Complete :=
  ⟨messages_delivered oneRound_runs, by unfold State.Complete; decide⟩

end LinuxInterview.BarrierMp
