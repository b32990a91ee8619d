import LinuxInterview.Library.Effort

/-!
# The mutex and `cancel_delayed_work_sync` in `dl_lab.c`

Mode 4, from `kthread_run` to the end of `dl_lab_exit`, which `rmmod` calls at any time.
-/

namespace LinuxInterview.DlLab.BookWork
open Library

/-- `tick` is the length of a jiffy in nanoseconds. -/
structure Params where
  escapeMs : Int32
  tick : Nat
  ticks : 0 < tick

inductive Holder
  | book
  | worker
  deriving DecidableEq, Repr

/-- A kernel thread that is `made` runs its function only if it has not been stopped by then. The call of
`cancel_delayed_work_sync` is two steps: the work is taken off its timer or queue, then its worker is waited for. -/
inductive BookAt
  | made
  | lock
  | schedule
  | asleep (till : Nat)
  | cancel
  | flush
  | unlock
  | waitStop
  | waitAsleep (till : Nat)
  | exited
  deriving DecidableEq, Repr

inductive WorkerAt
  | entry
  | trylock (t0 : Nat)
  | timeLeft (t0 : Nat)
  | gaveUp (t0 : Nat)
  | asleep (t0 till : Nat)
  | locked
  | delay (till : Nat)
  deriving DecidableEq, Repr

/-- Where `delay_task` waits to be run. -/
inductive Pending
  | no
  | armed (expires : Nat)
  | queued
  deriving DecidableEq, Repr

inductive ExitAt
  | loaded
  | stop
  | wait
  | cancel
  | flush
  | unloaded
  deriving DecidableEq, Repr

/-- `now` is in nanoseconds. -/
structure State where
  now : Nat
  owner : Option Holder
  book : BookAt
  pending : Pending
  worker : Option WorkerAt
  workerWaitedMs : Int32
  shouldStop : Bool
  exit : ExitAt
  deriving DecidableEq, Repr

def State.init : State := ⟨0, none, .made, .no, none, 0, false, .loaded⟩

def State.after (s : State) (ms : Nat) : Nat := s.now + ms * 1000000

def ktimeMsDelta (later earlier : Nat) : Int := ((later : Int) - earlier).tdiv 1000000

namespace Params

def jiffies (p : Params) (now : Nat) : Nat := now / p.tick

def msecsToJiffies (p : Params) (ms : Nat) : Nat := (ms * 1000000 + p.tick - 1) / p.tick

end Params

/-- Work that is pending already is not scheduled again. -/
def scheduleDelayedWork (p : Params) (s : State) (delay : Nat) : Pending :=
  if s.pending = .no then .armed (p.jiffies s.now + delay) else s.pending

def bookThread (p : Params) (s : State) : Option State :=
  match s.book with
  | .made => some { s with book := if s.shouldStop then .exited else .lock }
  | .lock => if s.owner = none then some { s with owner := some .book, book := .schedule } else none
  | .schedule =>
      some { s with pending := scheduleDelayedWork p s (p.msecsToJiffies 50), book := .asleep (s.after 300) }
  | .asleep till => if till ≤ s.now then some { s with book := .cancel } else none
  | .cancel => some { s with pending := .no, book := .flush }
  | .flush => if s.worker = none then some { s with book := .unlock } else none
  | .unlock => some { s with owner := none, book := .waitStop }
  | .waitStop => some { s with book := if s.shouldStop then .exited else .waitAsleep (s.after 50) }
  | .waitAsleep till => if till ≤ s.now then some { s with book := .waitStop } else none
  | .exited => none

def bookWorker (p : Params) (s : State) : WorkerAt → Option State
  | .entry => some { s with worker := some (.trylock s.now) }
  | .trylock t0 =>
      if s.owner = none then some { s with owner := some .worker, worker := some .locked }
      else some { s with worker := some (.timeLeft t0) }
  | .timeLeft t0 =>
      if p.escapeMs.toInt < ktimeMsDelta s.now t0 then some { s with worker := some (.gaveUp t0) }
      else some { s with worker := some (.asleep t0 (s.after 20)) }
  | .gaveUp t0 => some { s with workerWaitedMs := Int32.ofInt (ktimeMsDelta s.now t0), worker := none }
  | .asleep t0 till => if till ≤ s.now then some { s with worker := some (.trylock t0) } else none
  | .locked => some { s with worker := some (.delay (s.after 100)) }
  | .delay till => if till ≤ s.now then some { s with owner := none, worker := none } else none

def dlLabExit (s : State) : Option State :=
  match s.exit with
  | .loaded | .unloaded => none
  | .stop => some { s with shouldStop := true, exit := .wait }
  | .wait => if s.book = .exited then some { s with exit := .cancel } else none
  | .cancel => some { s with pending := .no, exit := .flush }
  | .flush => if s.worker = none then some { s with exit := .unloaded } else none

inductive Event
  | book
  | timer
  | start
  | worker
  | rmmod
  | exit
  | pass (ns : Nat)
  deriving DecidableEq, Repr

/-- A work item that runs is not started a second time. -/
def step (p : Params) (s : State) : Event → Option State
  | .book => bookThread p s
  | .timer =>
      match s.pending with
      | .armed expires => if expires ≤ p.jiffies s.now then some { s with pending := .queued } else none
      | .no | .queued => none
  | .start =>
      if s.pending = .queued ∧ s.worker = none then some { s with pending := .no, worker := some .entry } else none
  | .worker => s.worker.bind (bookWorker p s)
  | .rmmod => if s.exit = .loaded then some { s with exit := .stop } else none
  | .exit => dlLabExit s
  | .pass ns => some { s with now := s.now + ns }

/-- In the loop that waits for the stop, or beyond it. -/
def BookAt.waits : BookAt → Bool
  | .waitStop | .waitAsleep _ | .exited => true
  | .made | .lock | .schedule | .asleep _ | .cancel | .flush | .unlock => false

/-- Neither time that passes nor a turn of the last loop before the stop is work. -/
def works (s : State) : Event → Bool
  | .pass _ => false
  | .book => !s.book.waits || s.shouldStop
  | .timer | .start | .worker | .rmmod | .exit => true

/-- Nothing is left to do until `rmmod`, or for good. -/
def State.Settled (s : State) : Prop := s.exit = .unloaded ∨ s.exit = .loaded ∧ s.book.waits = true

/-- Somebody other than the user has a working step, at once or when some time has passed. -/
def GoesOn (p : Params) (s : State) : Prop :=
  ∃ ns event after, event ≠ .rmmod ∧ works { s with now := s.now + ns } event = true ∧
    Fires (step p) { s with now := s.now + ns } event after

def Params.limit (p : Params) : Nat := 20 + 3 * ((p.escapeMs.toInt + 20).toNat / 20)

/-- The circular wait of the two, and its only way out. -/
structure Resolves (p : Params) (events : List Event) (s : State) : Prop where
  held : s.worker ≠ none → s.owner = some .book
  neverTaken : s.owner ≠ some .worker
  waited : s.workerWaitedMs = 0 ∨ ∃ ms, p.escapeMs.toInt < ms ∧ s.workerWaitedMs = Int32.ofInt ms
  cancelled : s.book = .unlock ∨ s.book.waits = true → s.pending = .no ∧ s.worker = none
  released : s.book.waits = true → s.owner = none
  unloaded : s.exit = .unloaded → s.book = .exited
  bounded : effort (step p) works .init events ≤ p.limit
  goesOn : s.Settled ∨ GoesOn p s

/-! ## What holds at each place -/

def BookAt.Fits : BookAt → Option Holder → Pending → Option WorkerAt → Prop
  | .made, owner, pending, worker | .lock, owner, pending, worker | .waitStop, owner, pending, worker
  | .waitAsleep _, owner, pending, worker | .exited, owner, pending, worker =>
      owner = none ∧ pending = .no ∧ worker = none
  | .schedule, owner, pending, worker | .unlock, owner, pending, worker =>
      owner = some .book ∧ pending = .no ∧ worker = none
  | .asleep _, owner, _, _ | .cancel, owner, _, _ => owner = some .book
  | .flush, owner, pending, _ => owner = some .book ∧ pending = .no

def WorkerAt.Fits (p : Params) (now : Nat) : WorkerAt → Prop
  | .entry => True
  | .trylock t0 | .timeLeft t0 => t0 ≤ now
  | .asleep t0 till => t0 ≤ till
  | .gaveUp t0 => t0 ≤ now ∧ p.escapeMs.toInt < ktimeMsDelta now t0
  | .locked | .delay _ => False

def ExitAt.Fits : ExitAt → BookAt → Bool → Prop
  | .loaded, _, _ | .stop, _, _ => True
  | .wait, _, shouldStop => shouldStop = true
  | .cancel, book, _ | .flush, book, _ | .unloaded, book, _ => book = .exited

structure Inv (p : Params) (s : State) : Prop where
  book : s.book.Fits s.owner s.pending s.worker
  worker : ∀ w ∈ s.worker, w.Fits p s.now
  exit : s.exit.Fits s.book s.shouldStop
  waited : s.workerWaitedMs = 0 ∨ ∃ ms, p.escapeMs.toInt < ms ∧ s.workerWaitedMs = Int32.ofInt ms

variable {p : Params} {s s' : State}

namespace BookAt

variable {here : BookAt} {owner : Option Holder} {pending : Pending} {worker : Option WorkerAt}

theorem Fits.of_worker (fits : here.Fits owner pending worker) (runs : worker ≠ none) :
    owner = some .book ∧ here.waits = false ∧ here ≠ .exited := by
  cases here with
  | made | lock | waitStop | waitAsleep _ | exited | schedule | unlock => exact absurd fits.2.2 runs
  | asleep till | cancel => exact ⟨fits, rfl, nofun⟩
  | flush => exact ⟨fits.1, rfl, nofun⟩

theorem Fits.of_pending (fits : here.Fits owner pending worker) (waits : pending ≠ .no) (next : Pending)
    (worker' : Option WorkerAt) : here.Fits owner next worker' := by
  cases here with
  | made | lock | waitStop | waitAsleep _ | exited | schedule | unlock => exact absurd fits.2.1 waits
  | flush => exact absurd fits.2 waits
  | asleep till | cancel => exact fits

theorem Fits.of_runs (fits : here.Fits owner pending worker) (runs : worker ≠ none) (worker' : Option WorkerAt) :
    here.Fits owner pending worker' := by
  cases here with
  | made | lock | waitStop | waitAsleep _ | exited | schedule | unlock => exact absurd fits.2.2 runs
  | asleep till | cancel | flush => exact fits

theorem Fits.free (fits : here.Fits owner pending worker) (waits : here.waits = true) :
    owner = none ∧ pending = .no ∧ worker = none := by
  cases here with
  | waitStop | waitAsleep _ | exited => exact fits
  | made | lock | schedule | asleep _ | cancel | flush | unlock => cases waits

theorem Fits.owner_ne (fits : here.Fits owner pending worker) : owner ≠ some .worker := by
  cases here <;> simp_all [BookAt.Fits]

end BookAt

theorem ExitAt.Fits.of_busy {exit : ExitAt} {here : BookAt} {shouldStop : Bool} (fits : exit.Fits here shouldStop)
    (busy : here ≠ .exited) (next : BookAt) : exit.Fits next shouldStop := by
  cases exit with
  | loaded | stop => trivial
  | wait => exact fits
  | cancel | flush | unloaded => exact absurd fits busy

theorem WorkerAt.Fits.later {here : WorkerAt} {now : Nat} (fits : here.Fits p now) (ns : Nat) : here.Fits p (now + ns) := by
  cases here with
  | entry => trivial
  | trylock t0 | timeLeft t0 => exact le_add_right fits
  | asleep t0 till => exact fits
  | gaveUp t0 =>
      refine ⟨le_add_right fits.1, fits.2.trans_le ?_⟩
      have more : ((now : Int) - t0) ≤ (now + ns : Nat) - t0 := by omega
      exact Int.tdiv_le_tdiv (by decide) more
  | locked | delay till => exact fits

/-! ## One step -/

namespace Inv

theorem init : Inv p .init where
  book := ⟨rfl, rfl, rfl⟩
  worker := nofun
  exit := trivial
  waited := Or.inl rfl

theorem goto (inv : Inv p s) (next : BookAt) (owner : Option Holder) (pending : Pending)
    (fits : next.Fits owner pending s.worker) (busy : s.book ≠ .exited) :
    Inv p { s with owner := owner, pending := pending, book := next } where
  book := fits
  worker := inv.worker
  exit := inv.exit.of_busy busy next
  waited := inv.waited

theorem book_step (inv : Inv p s) (moved : bookThread p s = some s') : Inv p s' := by
  have fits := inv.book
  cases here : s.book <;> simp only [bookThread, here] at moved <;> rw [here] at fits
  case made =>
    cases moved
    refine inv.goto (if s.shouldStop then .exited else .lock) s.owner s.pending ?_ (by simp [here])
    split <;> exact fits
  case lock =>
    obtain ⟨free, moved⟩ := Option.ite_none_right_eq_some.mp moved
    cases moved
    exact inv.goto .schedule (some .book) s.pending ⟨rfl, fits.2⟩ (by simp [here])
  case schedule =>
    cases moved
    exact inv.goto (.asleep _) s.owner _ fits.1 (by simp [here])
  case asleep till =>
    obtain ⟨-, moved⟩ := Option.ite_none_right_eq_some.mp moved
    cases moved
    exact inv.goto .cancel s.owner s.pending fits (by simp [here])
  case cancel =>
    cases moved
    exact inv.goto .flush s.owner .no ⟨fits, rfl⟩ (by simp [here])
  case flush =>
    obtain ⟨idle, moved⟩ := Option.ite_none_right_eq_some.mp moved
    cases moved
    exact inv.goto .unlock s.owner s.pending ⟨fits.1, fits.2, idle⟩ (by simp [here])
  case unlock =>
    cases moved
    exact inv.goto .waitStop none s.pending ⟨rfl, fits.2⟩ (by simp [here])
  case waitStop =>
    cases moved
    refine inv.goto (if s.shouldStop then .exited else .waitAsleep _) s.owner _ ?_ (by simp [here])
    split <;> exact fits
  case waitAsleep till =>
    obtain ⟨-, moved⟩ := Option.ite_none_right_eq_some.mp moved
    cases moved
    exact inv.goto .waitStop s.owner s.pending fits (by simp [here])
  case exited => cases moved

theorem work (inv : Inv p s) (runs : s.worker ≠ none) {next : Option WorkerAt} (fits : ∀ w ∈ next, w.Fits p s.now) :
    Inv p { s with worker := next } where
  book := inv.book.of_runs runs next
  worker := fits
  exit := inv.exit
  waited := inv.waited

theorem worker_step (inv : Inv p s) {here : WorkerAt} (runs : s.worker = some here)
    (moved : bookWorker p s here = some s') : Inv p s' := by
  have busy : s.worker ≠ none := by simp [runs]
  have fits := inv.worker here runs
  have held := (inv.book.of_worker busy).1
  cases here <;> simp only [bookWorker] at moved
  case entry =>
    cases moved
    exact inv.work busy (by simp [WorkerAt.Fits])
  case trylock t0 =>
    rw [if_neg (by simp [held])] at moved
    cases moved
    exact inv.work busy (by simpa [WorkerAt.Fits] using fits)
  case timeLeft t0 =>
    split at moved
    case isTrue expired =>
      cases moved
      exact inv.work busy (by simpa [WorkerAt.Fits] using ⟨fits, expired⟩)
    case isFalse =>
      cases moved
      have later : t0 ≤ s.after 20 := le_add_right fits
      exact inv.work busy (by simpa [WorkerAt.Fits] using later)
  case gaveUp t0 =>
    cases moved
    have gone : Inv p { s with worker := none } := inv.work busy nofun
    exact { gone with waited := Or.inr ⟨_, fits.2, rfl⟩ }
  case asleep t0 till =>
    obtain ⟨due, moved⟩ := Option.ite_none_right_eq_some.mp moved
    cases moved
    have later : t0 ≤ s.now := le_trans fits due
    exact inv.work busy (by simpa [WorkerAt.Fits] using later)
  case locked | delay till => exact fits.elim

theorem exit_step (inv : Inv p s) (moved : dlLabExit s = some s') : Inv p s' := by
  have fits := inv.exit
  cases here : s.exit <;> simp only [dlLabExit, here] at moved <;> rw [here] at fits
  case loaded | unloaded => cases moved
  case stop =>
    cases moved
    exact { inv with exit := rfl }
  case wait =>
    obtain ⟨exited, moved⟩ := Option.ite_none_right_eq_some.mp moved
    cases moved
    exact { inv with exit := exited }
  case cancel =>
    cases moved
    have free := inv.book.free (by rw [fits]; rfl)
    have same : s.book.Fits s.owner .no s.worker := by
      rw [← free.2.1]
      exact inv.book
    exact { inv with book := same, exit := fits }
  case flush =>
    obtain ⟨-, moved⟩ := Option.ite_none_right_eq_some.mp moved
    cases moved
    exact { inv with exit := fits }

theorem step (inv : Inv p s) {event : Event} (fired : Fires (step p) s event s') : Inv p s' := by
  cases event with
  | book => exact inv.book_step fired
  | exit => exact inv.exit_step fired
  | worker =>
      obtain ⟨here, runs, moved⟩ := Option.bind_eq_some_iff.mp fired
      exact inv.worker_step runs moved
  | timer =>
      simp only [Fires, BookWork.step] at fired
      cases waits : s.pending with
      | no | queued => simp [waits] at fired
      | armed expires =>
          rw [waits] at fired
          obtain ⟨-, moved⟩ := Option.ite_none_right_eq_some.mp fired
          cases moved
          exact { inv with book := inv.book.of_pending (by simp [waits]) .queued s.worker }
  | start =>
      obtain ⟨⟨queued, -⟩, moved⟩ := Option.ite_none_right_eq_some.mp fired
      cases moved
      have fits := inv.book.of_pending (by simp [queued]) .no (some .entry)
      exact { inv with book := fits, worker := by simp [WorkerAt.Fits] }
  | rmmod =>
      obtain ⟨-, moved⟩ := Option.ite_none_right_eq_some.mp fired
      cases moved
      exact { inv with exit := trivial }
  | pass ns =>
      cases fired
      exact { inv with worker := fun w runs => (inv.worker w runs).later ns }

end Inv

end LinuxInterview.DlLab.BookWork
