import LinuxInterview.RcuDemo.Values

/-!
# Safety of mode 0 of `rcu_demo.c`
-/

namespace LinuxInterview.RcuDemo
open Library

structure Alive (rounds : Int32) (s : State) : Prop where
  control : Control s
  pointers : Pointers s
  owners : Owners s
  reading : Reading s
  values : Values rounds s
  seen : Seen rounds s

variable {rounds : Int32} {s s' : State}

theorem Alive.step (inv : Alive rounds s) {actor : Actor} (action : step rounds s actor = some s') :
    Alive rounds s' := by
  obtain ⟨control, pointers, owners, reading, values, seen⟩ := inv
  cases actor with
  | reader =>
      exact ⟨control.reader action, pointers.reader action, owners.reader action,
        reading.reader control pointers owners action, values.reader action,
        seen.reader control pointers reading values action⟩
  | writer memory =>
      have written := values.writer pointers action
      exact ⟨control.writer action, pointers.writer control action, owners.writer control pointers action,
        reading.writer pointers action, written, seen.writer reading action written⟩
  | callback k =>
      exact ⟨control.callback action, pointers.callback action, owners.callback action,
        reading.callback control owners action, values.callback action,
        seen.callback reading values action⟩
  | main memory =>
      exact ⟨control.main action, pointers.main control action, owners.main control pointers action,
        reading.main control action, values.main control action,
        seen.main control reading values action⟩

theorem alive_after_kzalloc (rounds : Int32) : Alive rounds { State.init with
    mainP := some 0
    a := Function.update State.init.a 0 0
    allocated := 1
    mainAt := .assignPointer } where
  control := by constructor <;> simp [State.init, ReaderAt.reading, MainAt.loads]
  pointers := by constructor <;> simp [State.init, MainAt.published, WriterAt.copied]
  owners := ⟨Ledger.empty, by simp⟩
  reading := Reading.of_idle rfl
  values := by
    constructor
    · rfl
    · intro x below
      rw [Nat.le_zero.mp below]
      rfl
    · simp [State.init]
    · intro _ _
      rfl
    · simp [State.init]
  seen := by constructor <;> simp [State.init, ReaderAt.inLoop]

theorem Dormant.step (inv : Dormant s) {actor : Actor} (action : step rounds s actor = some s') :
    Dormant s' ∨ Alive rounds s' := by
  obtain ⟨pristine, mainAt⟩ := inv
  generalize s.mainAt = place at pristine mainAt
  subst pristine
  cases actor with
  | reader => cases action
  | writer memory => cases action
  | callback k => cases action
  | main memory =>
      cases place with
      | kzalloc =>
          cases memory with
          | true =>
              cases action
              exact Or.inr (alive_after_kzalloc rounds)
          | false =>
              cases action
              exact Or.inl ⟨rfl, Or.inr rfl⟩
      | assignPointer | runReader | runWriter | wait => simp [MainAt.loads] at mainAt
      | returned => cases action
      | loaded | clear | synchronize | grace | kfree | barrier =>
          cases action
          exact Or.inl ⟨rfl, Or.inr rfl⟩

theorem dormant_or_alive {actors : List Actor} (run : Runs rounds actors s) :
    Dormant s ∨ Alive rounds s := by
  refine Run.invariant (fun s => Dormant s ∨ Alive rounds s) ?_ ?_ run
  · exact Or.inl ⟨rfl, Or.inl rfl⟩
  · rintro before actor after (dormant | alive) action
    · exact dormant.step action
    · exact Or.inr (alive.step action)

theorem Alive.not_freed (inv : Alive rounds s) {readSection x : Nat} (holds : s.Holds readSection x) :
    s.frees x = 0 := by
  have reading : s.mainAt.loads = false := by
    by_contra loads
    have returned := (inv.control.finished (by simpa using loads)).1
    have holding := holds.1
    simp [returned, ReaderAt.holding] at holding
  have last : s.last = none := by
    unfold State.last
    cases mainAt : s.mainAt <;> simp_all [MainAt.loads, MainAt.freed]
  have ledger := inv.owners.ledger
  rw [last] at ledger
  exact ledger.never x (inv.reading.held readSection x holds).2

theorem Alive.all_freed (inv : Alive rounds s) (returned : s.mainAt = .returned) :
    (∀ x < s.allocated, s.frees x = 1) ∧ s.nrFreed = Int32.ofNat s.updates := by
  have writerAt := (inv.control.finished (by rw [returned]; rfl)).2
  have allocated : s.allocated = s.updates + 1 := by simpa [writerAt] using inv.pointers.allocated
  have drained := inv.owners.drained returned
  have newest : s.last = some s.updates := by
    have mainP := inv.pointers.mainP (by rw [returned]; rfl)
    simp [State.last, returned, MainAt.freed, mainP]
  have ledger := inv.owners.ledger
  rw [drained, newest] at ledger
  constructor
  · intro x below
    apply ledger.once
    rcases Nat.lt_succ_iff_lt_or_eq.mp (allocated ▸ below) with older | same
    · exact Or.inl ⟨older, List.not_mem_nil⟩
    · exact Or.inr (same ▸ rfl)
  · simpa using ledger.counted

/-- In every run: what the reader's section holds is not freed, the printed values do not decrease,
and `cleanup_example` leaves each object freed once. -/
theorem rcu_demo_safe {actors : List Actor} (run : Runs rounds actors s) :
    (∀ readSection x, s.Holds readSection x → s.frees x = 0) ∧ s.seen.Pairwise (· ≤ ·) ∧
      (s.mainAt = .returned →
        (∀ x < s.allocated, s.frees x = 1) ∧ s.nrFreed.toInt = s.updates) := by
  rcases dormant_or_alive run with dormant | alive
  · rw [dormant.pristine]
    refine ⟨fun _ _ _ => rfl, List.Pairwise.nil, fun _ => ⟨fun x below => ?_, rfl⟩⟩
    exact absurd below (Nat.not_lt_zero x)
  · refine ⟨fun _ _ => alive.not_freed, alive.seen.sorted, fun returned => ?_⟩
    obtain ⟨freed, counted⟩ := alive.all_freed returned
    exact ⟨freed, counted ▸ alive.values.toInt_updates⟩

/-! One round: the first section is open while the writer retires the object that it holds. -/

def oneRound : List Actor :=
  [.main true, .main true, .main true, .main true,
    .reader, .reader, .reader,
    .writer true, .writer true, .writer true, .writer true, .writer true, .writer true, .writer true,
    .reader, .reader, .callback 0,
    .reader, .reader, .reader, .reader, .reader, .reader, .reader, .writer true, .writer true,
    .main true, .main true, .main true, .main true, .main true, .main true, .main true]

def oneRoundEnd : State := (oneRound.foldlM (step 1) State.init).getD State.init

theorem oneRound_runs : Runs 1 oneRound oneRoundEnd := run_of_foldlM rfl

theorem rcu_demo_safe_one_round :
    (oneRoundEnd.mainAt = .returned ∧ oneRoundEnd.seen = [0, 5]) ∧
      (∀ readSection x, oneRoundEnd.Holds readSection x → oneRoundEnd.frees x = 0) ∧
        oneRoundEnd.seen.Pairwise (· ≤ ·) ∧
        (oneRoundEnd.mainAt = .returned →
          (∀ x < oneRoundEnd.allocated, oneRoundEnd.frees x = 1) ∧
            oneRoundEnd.nrFreed.toInt = oneRoundEnd.updates) :=
  ⟨⟨by decide, by decide⟩, rcu_demo_safe oneRound_runs⟩

end LinuxInterview.RcuDemo
