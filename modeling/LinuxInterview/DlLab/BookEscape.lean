import LinuxInterview.DlLab.BookWork

/-!
# The way out of the circular wait

The worker never gets the mutex; it gives up, and both the thread and `rmmod` come to their ends after a number
of steps that `escape_ms` alone bounds.
-/

namespace LinuxInterview.DlLab.BookWork
open Library

variable {p : Params} {s s' : State}

/-! ## The work that is left -/

/-- The sleeps left to a worker whose next look at the clock is at least `waited` nanoseconds after its first. -/
def Params.sleeps (p : Params) (waited : Nat) : Nat :=
  (p.escapeMs.toInt - (waited / 1000000 : Nat) + 20).toNat / 20

def WorkerAt.rank (p : Params) (now : Nat) : WorkerAt → Nat
  | .entry => 3 * p.sleeps 0 + 4
  | .trylock t0 => 3 * p.sleeps (now - t0) + 3
  | .timeLeft t0 => 3 * p.sleeps (now - t0) + 2
  | .gaveUp _ => 1
  | .asleep t0 till => 3 * p.sleeps (till - t0) + 4
  | .locked => 2
  | .delay _ => 1

def Pending.rank (p : Params) : Pending → Nat
  | .no => 0
  | .armed _ => 3 * p.sleeps 0 + 6
  | .queued => 3 * p.sleeps 0 + 5

def BookAt.rank (p : Params) (shouldStop : Bool) : BookAt → Nat
  | .made => 3 * p.sleeps 0 + 15
  | .lock => 3 * p.sleeps 0 + 14
  | .schedule => 3 * p.sleeps 0 + 13
  | .asleep _ => 6
  | .cancel => 5
  | .flush => 4
  | .unlock => 3
  | .waitStop => if shouldStop then 1 else 2
  | .waitAsleep _ => 2
  | .exited => 0

def ExitAt.rank : ExitAt → Nat
  | .loaded => 5
  | .stop => 4
  | .wait => 3
  | .cancel => 2
  | .flush => 1
  | .unloaded => 0

def State.rank (p : Params) (s : State) : Nat :=
  s.book.rank p s.shouldStop + s.pending.rank p + s.worker.elim 0 (WorkerAt.rank p s.now) + s.exit.rank

theorem ktimeMsDelta_eq {t0 now : Nat} (earlier : t0 ≤ now) : ktimeMsDelta now t0 = ((now - t0) / 1000000 : Nat) := by
  rw [ktimeMsDelta, ← Nat.cast_sub earlier]
  exact (Int.ofNat_tdiv ..).symm

theorem sleeps_anti {waited later : Nat} (more : waited ≤ later) : p.sleeps later ≤ p.sleeps waited := by
  unfold Params.sleeps
  omega

theorem sleeps_lt {waited : Nat} (left : (waited / 1000000 : Nat) ≤ p.escapeMs.toInt) :
    p.sleeps (waited + 20 * 1000000) < p.sleeps waited := by
  unfold Params.sleeps
  omega

theorem worker_falls (inv : Inv p s) {here : WorkerAt} (runs : s.worker = some here)
    (moved : bookWorker p s here = some s') : s'.rank p < s.rank p := by
  have fits := inv.worker here runs
  have held := (inv.book.of_worker (by simp [runs])).1
  cases here <;> simp only [bookWorker] at moved
  case entry =>
    cases moved
    simp [State.rank, runs, WorkerAt.rank]
  case trylock t0 =>
    rw [if_neg (by simp [held])] at moved
    cases moved
    simp [State.rank, runs, WorkerAt.rank]
  case timeLeft t0 =>
    split at moved
    case isTrue =>
      cases moved
      simp [State.rank, runs, WorkerAt.rank]
    case isFalse left =>
      cases moved
      rw [ktimeMsDelta_eq fits, not_lt] at left
      have fewer := sleeps_lt left
      have till : s.after 20 - t0 = s.now - t0 + 20 * 1000000 := Nat.sub_add_comm fits
      simp only [State.rank, runs, Option.elim_some, WorkerAt.rank, till]
      omega
  case gaveUp t0 =>
    cases moved
    simp [State.rank, runs, WorkerAt.rank]
  case asleep t0 till =>
    obtain ⟨due, moved⟩ := Option.ite_none_right_eq_some.mp moved
    cases moved
    have fewer : p.sleeps (s.now - t0) ≤ p.sleeps (till - t0) := sleeps_anti (Nat.sub_le_sub_right due t0)
    simp only [State.rank, runs, Option.elim_some, WorkerAt.rank]
    omega
  case locked | delay till => exact fits.elim

theorem book_falls (inv : Inv p s) (moved : bookThread p s = some s') :
    s'.rank p + (works s .book).toNat ≤ s.rank p := by
  have fits := inv.book
  cases here : s.book <;> simp only [bookThread, here] at moved <;> rw [here] at fits
  case made | waitStop =>
    cases moved
    cases stop : s.shouldStop <;> simp [State.rank, works, here, stop, BookAt.rank, BookAt.waits]
  case lock | asleep till | flush | waitAsleep till =>
    obtain ⟨-, moved⟩ := Option.ite_none_right_eq_some.mp moved
    cases moved
    cases stop : s.shouldStop <;> simp [State.rank, works, here, stop, BookAt.rank, BookAt.waits]
  case schedule =>
    cases moved
    simp [State.rank, works, here, BookAt.rank, BookAt.waits, scheduleDelayedWork, fits.2.1, Pending.rank]
    omega
  case cancel =>
    cases moved
    simp [State.rank, works, here, BookAt.rank, BookAt.waits, Pending.rank]
    omega
  case unlock =>
    cases moved
    cases stop : s.shouldStop <;> simp [State.rank, works, here, stop, BookAt.rank, BookAt.waits]
  case exited => cases moved

theorem exit_falls (moved : dlLabExit s = some s') : s'.rank p < s.rank p := by
  cases here : s.exit <;> simp only [dlLabExit, here] at moved
  case loaded | unloaded => cases moved
  case stop =>
    cases moved
    have less : s.book.rank p true ≤ s.book.rank p s.shouldStop := by
      cases s.book <;> cases s.shouldStop <;> simp [BookAt.rank]
    simp only [State.rank, here, ExitAt.rank]
    omega
  case wait | flush =>
    obtain ⟨-, moved⟩ := Option.ite_none_right_eq_some.mp moved
    cases moved
    simp [State.rank, here, ExitAt.rank]
  case cancel =>
    cases moved
    simp only [State.rank, here, ExitAt.rank, Pending.rank]
    omega

theorem falls (inv : Inv p s) {event : Event} (fired : Fires (step p) s event s') :
    s'.rank p + (works s event).toNat ≤ s.rank p := by
  cases event with
  | book => exact book_falls inv fired
  | exit => exact exit_falls fired
  | worker =>
      obtain ⟨here, runs, moved⟩ := Option.bind_eq_some_iff.mp fired
      exact worker_falls inv runs moved
  | timer =>
      simp only [Fires, BookWork.step] at fired
      cases waits : s.pending with
      | no | queued => simp [waits] at fired
      | armed expires =>
          rw [waits] at fired
          obtain ⟨-, moved⟩ := Option.ite_none_right_eq_some.mp fired
          cases moved
          simp [State.rank, works, waits, Pending.rank]
  | start =>
      obtain ⟨⟨queued, idle⟩, moved⟩ := Option.ite_none_right_eq_some.mp fired
      cases moved
      simp [State.rank, works, queued, idle, Pending.rank, WorkerAt.rank]
  | rmmod =>
      obtain ⟨loaded, moved⟩ := Option.ite_none_right_eq_some.mp fired
      cases moved
      simp [State.rank, works, loaded, ExitAt.rank]
  | pass ns =>
      cases fired
      have worker : s.worker.elim 0 (WorkerAt.rank p (s.now + ns)) ≤ s.worker.elim 0 (WorkerAt.rank p s.now) := by
        cases s.worker with
        | none => rfl
        | some here =>
            cases here with
            | trylock t0 | timeLeft t0 =>
                have fewer : p.sleeps (s.now + ns - t0) ≤ p.sleeps (s.now - t0) := sleeps_anti (by omega)
                simp only [Option.elim_some, WorkerAt.rank]
                omega
            | entry | gaveUp _ | asleep _ _ | locked | delay _ => rfl
      simp only [State.rank, works, Bool.toNat_false]
      omega

theorem ranks (p : Params) : Ranks (step p) works (Inv p) (State.rank p) where
  keeps _ _ _ inv fired := inv.step fired
  falls _ _ _ inv fired := falls inv fired

/-! ## Somebody can go on -/

namespace GoesOn

theorem of_now (event : Event) (user : event ≠ .rmmod) (working : works s event = true)
    (fires : ∃ after, Fires (step p) s event after) : GoesOn p s := by
  obtain ⟨after, fired⟩ := fires
  exact ⟨0, event, after, user, working, fired⟩

/-- A sleep ends when enough time has passed. -/
theorem of_sleep (event : Event) (till : Nat) (user : event ≠ .rmmod) (working : ∀ s' : State, s'.book = s.book →
    s'.shouldStop = s.shouldStop → works s' event = true)
    (fires : ∃ after, Fires (step p) { s with now := s.now + till } event after) : GoesOn p s := by
  obtain ⟨after, fired⟩ := fires
  exact ⟨till, event, after, user, working _ rfl rfl, fired⟩

theorem of_worker {here : WorkerAt} (runs : s.worker = some here) : GoesOn p s := by
  cases here with
  | entry => exact of_now .worker nofun rfl ⟨_, by rw [Fires, BookWork.step, runs]; rfl⟩
  | locked => exact of_now .worker nofun rfl ⟨_, by rw [Fires, BookWork.step, runs]; rfl⟩
  | gaveUp t0 => exact of_now .worker nofun rfl ⟨_, by rw [Fires, BookWork.step, runs]; rfl⟩
  | trylock t0 =>
      refine of_now .worker nofun rfl ?_
      simp only [Fires, BookWork.step, runs, Option.bind_some, bookWorker]
      split <;> exact ⟨_, rfl⟩
  | timeLeft t0 =>
      refine of_now .worker nofun rfl ?_
      simp only [Fires, BookWork.step, runs, Option.bind_some, bookWorker]
      split <;> exact ⟨_, rfl⟩
  | asleep t0 till | delay till =>
      refine of_sleep .worker till nofun (fun _ _ _ => rfl) ?_
      simp only [Fires, BookWork.step, runs, Option.bind_some, bookWorker]
      exact ⟨_, if_pos (Nat.le_add_left till _)⟩

theorem of_busy (inv : Inv p s) (busy : s.book.waits = false) : GoesOn p s := by
  have fits := inv.book
  have working : works s .book = true := by simp [works, busy]
  cases here : s.book <;> rw [here] at fits busy
  case made | schedule | cancel | unlock =>
    refine of_now .book nofun working ?_
    simp only [Fires, BookWork.step, bookThread, here]
    exact ⟨_, rfl⟩
  case lock =>
    refine of_now .book nofun working ?_
    simp only [Fires, BookWork.step, bookThread, here]
    exact ⟨_, if_pos fits.1⟩
  case asleep till =>
    refine of_sleep .book till nofun (fun s' same _ => by simp [works, same, here, BookAt.waits]) ?_
    simp only [Fires, BookWork.step, bookThread, here]
    exact ⟨_, if_pos (Nat.le_add_left till _)⟩
  case flush =>
    cases runs : s.worker with
    | some w => exact of_worker runs
    | none =>
        refine of_now .book nofun working ?_
        simp only [Fires, BookWork.step, bookThread, here]
        exact ⟨_, if_pos runs⟩
  case waitStop | waitAsleep till | exited => cases busy

/-- The thread that has been stopped leaves its last loop. -/
theorem of_stopped (waits : s.book.waits = true) (stopped : s.shouldStop = true) (inside : s.book ≠ .exited) :
    GoesOn p s := by
  have working : ∀ s' : State, s'.shouldStop = s.shouldStop → works s' .book = true := by
    intro s' same
    simp [works, same, stopped]
  cases here : s.book with
  | waitStop =>
      refine of_now .book nofun (working s rfl) ?_
      simp only [Fires, BookWork.step, bookThread, here]
      exact ⟨_, rfl⟩
  | waitAsleep till =>
      refine of_sleep .book till nofun (fun s' _ => working s') ?_
      simp only [Fires, BookWork.step, bookThread, here]
      exact ⟨_, if_pos (Nat.le_add_left till _)⟩
  | exited => exact absurd here inside
  | made | lock | schedule | asleep _ | cancel | flush | unlock => simp [here, BookAt.waits] at waits

theorem of_exit (inv : Inv p s) (waits : s.book.waits = true) (begun : s.exit ≠ .loaded) (ends : s.exit ≠ .unloaded) :
    GoesOn p s := by
  have fits := inv.exit
  cases here : s.exit <;> rw [here] at fits
  case loaded => exact absurd here begun
  case unloaded => exact absurd here ends
  case stop | cancel =>
    refine of_now .exit nofun rfl ?_
    simp only [Fires, BookWork.step, dlLabExit, here]
    exact ⟨_, rfl⟩
  case wait =>
    rcases eq_or_ne s.book .exited with exited | inside
    · refine of_now .exit nofun rfl ?_
      simp only [Fires, BookWork.step, dlLabExit, here]
      exact ⟨_, if_pos exited⟩
    · exact of_stopped waits fits inside
  case flush =>
    refine of_now .exit nofun rfl ?_
    simp only [Fires, BookWork.step, dlLabExit, here]
    exact ⟨_, if_pos (inv.book.free waits).2.2⟩

end GoesOn

theorem settled_or_goesOn (inv : Inv p s) : s.Settled ∨ GoesOn p s := by
  cases waits : s.book.waits with
  | false => exact Or.inr (.of_busy inv waits)
  | true =>
      by_cases ends : s.exit = .unloaded
      · exact Or.inl (Or.inl ends)
      · by_cases loaded : s.exit = .loaded
        · exact Or.inl (Or.inr ⟨loaded, waits⟩)
        · exact Or.inr (.of_exit inv waits loaded ends)

theorem resolves_of_run {events : List Event} (run : Run (Fires (step p)) .init events s) : Resolves p events s := by
  have inv : Inv p s := run.invariant (Inv p) .init fun _ _ _ before fired => before.step fired
  constructor
  · exact fun runs => (inv.book.of_worker runs).1
  · exact inv.book.owner_ne
  · exact inv.waited
  · rintro (unlock | waits)
    · have fits := inv.book
      rw [unlock] at fits
      exact fits.2
    · exact (inv.book.free waits).2
  · exact fun waits => (inv.book.free waits).1
  · intro unloaded
    have fits := inv.exit
    rwa [unloaded] at fits
  · have spent := (ranks p).effort_le .init run
    have all : State.init.rank p = p.limit := by
      simp only [State.rank, State.init, BookAt.rank, Pending.rank, ExitAt.rank, Option.elim_none, Params.limit,
        Params.sleeps]
      omega
    omega
  · exact settled_or_goesOn inv

def patient : Params := ⟨100, 4000000, by decide⟩

/-- The work starts while the thread sleeps, and gives up while the thread waits for it. -/
def circle : List Event :=
  [.book, .book, .book, .pass 60000000, .timer, .start, .worker, .worker, .worker, .pass 240000000, .book, .book,
    .worker, .worker, .worker, .worker, .book, .book, .rmmod, .exit, .book, .exit, .exit, .exit]

def circled : State := ⟨300000000, none, .exited, .no, none, 240, true, .unloaded⟩

theorem resolves_of_run_circled : circled.exit = .unloaded ∧ circled.workerWaitedMs = 240 ∧ circled.owner = none := by
  have run : Run (Fires (step patient)) .init circle circled := run_of_foldlM (by decide +kernel)
  have gone : circled.exit = .unloaded := rfl
  have resolves := resolves_of_run run
  refine ⟨gone, rfl, resolves.released ?_⟩
  rw [resolves.unloaded gone]
  rfl

end LinuxInterview.DlLab.BookWork
