import Mathlib.Data.BitVec
import LinuxInterview.DlLab.Threads
import LinuxInterview.Library.Locks

/-!
# The crossed locks of `dl_lab.c`, with and without `mutex_trylock`

Modes 2 and 3, from `kthread_run` to the end of both threads. What `dl_lab_exit`, the watchdog or a user do
to a thread comes at any time: a stop, or a SIGKILL.
-/

namespace LinuxInterview.DlLab.Abba
open Library

/-- `th_ab` and `th_ba`. -/
inductive Side
  | ab
  | ba
  deriving DecidableEq, Repr

instance : Fintype Side where
  elems := {.ab, .ba}
  complete t := by cases t <;> decide

structure Arg extends AbbaArg where
  trylock : Bool

structure Params where
  mode : Int32
  escapeMs : Int32
  crossed : mode = 2 ∨ mode = 3

def Params.arg (p : Params) : Side → Arg
  | .ab => { argAb with trylock := p.mode == 3 }
  | .ba => { argBa with trylock := p.mode == 3 }

/-- Where a thread is: a call that is to be made, or a sleep. A thread that is `made` runs `abba_fn` only
if it has not been stopped by then. -/
inductive At
  | made
  | allowSignal
  | lockFirst
  | asleep (till : Nat)
  | incBlocked
  | getTime
  | shouldStop (t0 : Nat)
  | timeLeft (t0 : Nat)
  | trylock (t0 : Nat)
  | asleepAgain (t0 till : Nat)
  | lockSecond
  | unlockSecond
  | decBlocked
  | unlockFirst
  | waitStop
  | waitAsleep (till : Nat)
  | exited
  deriving DecidableEq, Repr

/-- `now` is in nanoseconds. -/
structure State where
  now : Nat
  owner : Mutex → Option Side
  blocked : BitVec 32
  here : Side → At
  allowed : Side → Bool
  pending : Side → Bool
  stop : Side → Bool

namespace State

def init : State := ⟨0, fun _ => none, 0, fun _ => .made, fun _ => false, fun _ => false, fun _ => false⟩

def goto (s : State) (t : Side) (here : At) : State := { s with here := Function.update s.here t here }

def lock (s : State) (t : Side) (m : Mutex) : State := { s with owner := Function.update s.owner m (some t) }

def unlock (s : State) (m : Mutex) : State := { s with owner := Function.update s.owner m none }

def after (s : State) (ms : Nat) : Nat := s.now + ms * 1000000

end State

def ktimeUsDelta (later earlier : Nat) : Int := ((later : Int) - earlier).tdiv 1000

def abbaFn (p : Params) (t : Side) (s : State) : Option State :=
  let a := p.arg t
  match s.here t with
  | .made => some (s.goto t (if s.stop t then .exited else .allowSignal))
  | .allowSignal => some { s.goto t .lockFirst with allowed := Function.update s.allowed t true }
  | .lockFirst =>
      if s.owner a.first = none then some ((s.lock t a.first).goto t (.asleep (s.after 300))) else none
  | .asleep till => if till ≤ s.now then some (s.goto t .incBlocked) else none
  | .incBlocked => some { s.goto t .getTime with blocked := s.blocked + 1 }
  | .getTime => some (s.goto t (if a.trylock then .shouldStop s.now else .lockSecond))
  | .shouldStop t0 => some (s.goto t (if s.stop t then .decBlocked else .timeLeft t0))
  | .timeLeft t0 =>
      some (s.goto t (if ktimeUsDelta s.now t0 < p.escapeMs.toInt * 1000 then .trylock t0 else .decBlocked))
  | .trylock t0 =>
      if s.owner a.second = none then some ((s.lock t a.second).goto t .unlockSecond)
      else some (s.goto t (.asleepAgain t0 (s.after 20)))
  | .asleepAgain t0 till => if till ≤ s.now then some (s.goto t (.shouldStop t0)) else none
  | .lockSecond => if s.owner a.second = none then some ((s.lock t a.second).goto t .unlockSecond) else none
  | .unlockSecond => some ((s.unlock a.second).goto t .decBlocked)
  | .decBlocked => some { s.goto t .unlockFirst with blocked := s.blocked - 1 }
  | .unlockFirst => some ((s.unlock a.first).goto t .waitStop)
  | .waitStop => some (s.goto t (if s.stop t then .exited else .waitAsleep (s.after 50)))
  | .waitAsleep till => if till ≤ s.now then some (s.goto t .waitStop) else none
  | .exited => none

inductive Event
  | lab (t : Side)
  | interrupt (t : Side)
  | kill (t : Side)
  | stop (t : Side)
  | pass (ns : Nat)

/-- `mutex_lock_interruptible` may fail with a pending signal even where the mutex has become free by the
time it returns. -/
def step (p : Params) (s : State) : Event → Option State
  | .lab t => abbaFn p t s
  | .interrupt t => if s.here t = .lockSecond ∧ s.pending t = true then some (s.goto t .decBlocked) else none
  | .kill t => some { s with pending := Function.update s.pending t (s.pending t || s.allowed t) }
  | .stop t => some { s with stop := Function.update s.stop t true }
  | .pass ns => some { s with now := s.now + ns }

/-! ## The discipline -/

namespace At

variable (a : Arg)

/-- The mutex that the next step of the thread takes or tries to take. -/
def locks : At → Option Mutex
  | .lockFirst => some a.first
  | .trylock _ | .lockSecond => some a.second
  | _ => none

def unlocks : At → Option Mutex
  | .unlockSecond => some a.second
  | .unlockFirst => some a.first
  | _ => none

def holds : At → Set Mutex
  | .asleep _ | .incBlocked | .getTime | .shouldStop _ | .timeLeft _ | .trylock _ | .asleepAgain _ _ | .lockSecond
  | .decBlocked | .unlockFirst => {a.first}
  | .unlockSecond => {a.second, a.first}
  | .made | .allowSignal | .lockFirst | .waitStop | .waitAsleep _ | .exited => ∅

def counted : At → BitVec 32
  | .getTime | .shouldStop _ | .timeLeft _ | .trylock _ | .asleepAgain _ _ | .lockSecond | .unlockSecond
  | .decBlocked => 1
  | .made | .allowSignal | .lockFirst | .asleep _ | .incBlocked | .unlockFirst | .waitStop | .waitAsleep _ | .exited => 0

/-- In the loop that waits for the stop, or beyond it. -/
def Waits : At → Prop
  | .waitStop | .waitAsleep _ | .exited => True
  | _ => False

instance (h : At) : Decidable h.Waits := by
  cases h <;> unfold Waits <;> infer_instance

end At

structure Disciplined (p : Params) (s : State) : Prop where
  unlocker : ∀ t, ∀ m ∈ (s.here t).unlocks (p.arg t), s.owner m = some t
  once : ∀ t, ∀ m ∈ (s.here t).locks (p.arg t), s.owner m ≠ some t
  released : (∀ t, (s.here t).Waits) → (∀ m, s.owner m = none) ∧ s.blocked = 0

structure Inv (p : Params) (s : State) : Prop where
  owners : Agrees s.owner fun t => (s.here t).holds (p.arg t)
  blocked : s.blocked = ∑ t, (s.here t).counted

variable {p : Params} {s s' : State} {t : Side} {m : Mutex} {next : At}

theorem first_ne_second : (p.arg t).first ≠ (p.arg t).second := by
  cases t with
  | ab => exact Mutex.noConfusion
  | ba => exact Mutex.noConfusion

theorem mem_holds_of_unlocks (call : m ∈ (s.here t).unlocks (p.arg t)) : m ∈ (s.here t).holds (p.arg t) := by
  cases here : s.here t with
  | unlockSecond | unlockFirst =>
      rw [here] at call
      cases call
      simp [At.holds]
  | _ =>
      rw [here] at call
      cases call

theorem not_mem_holds_of_locks (call : m ∈ (s.here t).locks (p.arg t)) : m ∉ (s.here t).holds (p.arg t) := by
  cases here : s.here t with
  | lockFirst =>
      rw [here] at call
      cases call
      exact Set.notMem_empty _
  | trylock t0 | lockSecond =>
      rw [here] at call
      cases call
      exact first_ne_second.symm
  | _ =>
      rw [here] at call
      cases call

theorem Inv.disciplined (inv : Inv p s) : Disciplined p s where
  unlocker t m call := (inv.owners m t).mpr (mem_holds_of_unlocks call)
  once t m call owned := not_mem_holds_of_locks call ((inv.owners m t).mp owned)
  released waits := by
    have empty : ∀ t, (s.here t).holds (p.arg t) = ∅ ∧ (s.here t).counted = 0 := by
      intro t
      have done := waits t
      cases here : s.here t <;> rw [here] at done <;> first | exact ⟨rfl, rfl⟩ | cases done
    refine ⟨fun m => inv.owners.free fun t => ?_, ?_⟩
    · rw [(empty t).1]
      exact Set.notMem_empty m
    · rw [inv.blocked]
      exact Finset.sum_eq_zero fun t _ => (empty t).2

/-! ## One step -/

theorem State.goto_self : (s.goto t next).here t = next := Function.update_self ..

theorem State.goto_other {u : Side} (different : u ≠ t) : (s.goto t next).here u = s.here u :=
  Function.update_of_ne different ..

namespace Inv

theorem init : Inv p .init where
  owners m t := by simp [State.init, At.holds]
  blocked := rfl

theorem holds_others (u : Side) (different : u ≠ t) :
    ((s.goto t next).here u).holds (p.arg u) = (s.here u).holds (p.arg u) := by
  rw [State.goto_other different]

variable {before : At}

theorem counted_goto (inv : Inv p s) (here : s.here t = before) :
    ∑ u, ((s.goto t next).here u).counted = s.blocked - before.counted + next.counted := by
  rw [inv.blocked, ← here]
  exact sum_update At.counted s.here t next

theorem blocked_goto (inv : Inv p s) (here : s.here t = before) (same : next.counted = before.counted) :
    s.blocked = ∑ u, ((s.goto t next).here u).counted := by
  rw [inv.counted_goto here, same, sub_add_cancel]

theorem owners_goto (inv : Inv p s) (here : s.here t = before) (same : next.holds (p.arg t) = before.holds (p.arg t)) :
    Agrees s.owner fun u => ((s.goto t next).here u).holds (p.arg u) := by
  have unmoved : ∀ u, ((s.goto t next).here u).holds (p.arg u) = (s.here u).holds (p.arg u) := by
    intro u
    rcases eq_or_ne u t with rfl | different
    · rw [State.goto_self, here, same]
    · rw [holds_others u different]
  exact inv.owners.congr unmoved

theorem goto (inv : Inv p s) (here : s.here t = before) (holds : next.holds (p.arg t) = before.holds (p.arg t))
    (counted : next.counted = before.counted) : Inv p (s.goto t next) :=
  ⟨inv.owners_goto here holds, inv.blocked_goto here counted⟩

theorem lock (inv : Inv p s) (here : s.here t = before) (free : s.owner m = none)
    (holds : next.holds (p.arg t) = insert m (before.holds (p.arg t))) (counted : next.counted = before.counted) :
    Inv p ((s.lock t m).goto t next) where
  owners := inv.owners.acquire free (by rw [State.goto_self, holds, here]) (holds_others (s := s.lock t m))
  blocked := inv.blocked_goto here counted

theorem unlock (inv : Inv p s) (here : s.here t = before) (held : m ∈ before.holds (p.arg t))
    (holds : next.holds (p.arg t) = before.holds (p.arg t) \ {m}) (counted : next.counted = before.counted) :
    Inv p ((s.unlock m).goto t next) where
  owners := inv.owners.release (here ▸ held) (by rw [State.goto_self, holds, here]) (holds_others (s := s.unlock m))
  blocked := inv.blocked_goto here counted

theorem count (inv : Inv p s) (here : s.here t = before) {blocked : BitVec 32}
    (counted : blocked = s.blocked - before.counted + next.counted)
    (holds : next.holds (p.arg t) = before.holds (p.arg t)) : Inv p { s.goto t next with blocked := blocked } :=
  ⟨inv.owners_goto here holds, counted.trans (inv.counted_goto here).symm⟩

end Inv

theorem lab_inv (inv : Inv p s) (moved : abbaFn p t s = some s') : Inv p s' := by
  cases here : s.here t <;> simp only [abbaFn, here] at moved
  case made | getTime | shouldStop t0 | timeLeft t0 | waitStop =>
    cases moved
    refine inv.goto here ?_ ?_ <;> split <;> rfl
  case allowSignal =>
    cases moved
    have gone : Inv p (s.goto t .lockFirst) := inv.goto here rfl rfl
    exact ⟨gone.owners, gone.blocked⟩
  case asleep till | asleepAgain t0 till | waitAsleep till =>
    obtain ⟨-, moved⟩ := Option.ite_none_right_eq_some.mp moved
    cases moved
    exact inv.goto here rfl rfl
  case lockFirst =>
    obtain ⟨free, moved⟩ := Option.ite_none_right_eq_some.mp moved
    cases moved
    exact inv.lock here free (by simp [At.holds]) rfl
  case lockSecond =>
    obtain ⟨free, moved⟩ := Option.ite_none_right_eq_some.mp moved
    cases moved
    exact inv.lock here free rfl rfl
  case trylock t0 =>
    split at moved
    case isTrue free =>
      cases moved
      exact inv.lock here free rfl rfl
    case isFalse =>
      cases moved
      exact inv.goto here rfl rfl
  case incBlocked =>
    cases moved
    have more : s.blocked + 1 = s.blocked - At.incBlocked.counted + At.getTime.counted := by simp [At.counted]
    exact inv.count here more rfl
  case decBlocked =>
    cases moved
    have less : s.blocked - 1 = s.blocked - At.decBlocked.counted + At.unlockFirst.counted := by simp [At.counted]
    exact inv.count here less rfl
  case unlockSecond =>
    cases moved
    have other : (p.arg t).second ∉ ({(p.arg t).first} : Set Mutex) :=
      Set.mem_singleton_iff.not.mpr first_ne_second.symm
    exact inv.unlock here (Set.mem_insert ..) (Set.insert_sdiff_self_of_notMem other).symm rfl
  case unlockFirst =>
    cases moved
    exact inv.unlock here rfl (by simp [At.holds]) rfl
  case exited => cases moved

theorem step_inv {e : Event} (inv : Inv p s) (fired : Fires (step p) s e s') : Inv p s' := by
  cases e with
  | lab t => exact lab_inv inv fired
  | interrupt t =>
      obtain ⟨⟨here, -⟩, moved⟩ := Option.ite_none_right_eq_some.mp fired
      cases moved
      exact inv.goto here rfl rfl
  | kill t | stop t | pass ns =>
      cases fired
      exact ⟨inv.owners, inv.blocked⟩

theorem disciplined_of_run (p : Params) {events : List Event} (run : Run (Fires (step p)) .init events s) :
    Disciplined p s :=
  (run.invariant (Inv p) .init fun _ _ _ => step_inv).disciplined

def blocking : Params := ⟨2, 6000, Or.inl rfl⟩

/-- Each thread sleeps on the other's mutex until a signal takes `dl_ab` out. -/
def rescue : List Event :=
  [.lab .ab, .lab .ab, .lab .ab, .lab .ba, .lab .ba, .lab .ba, .pass 300000000,
    .lab .ab, .lab .ab, .lab .ab, .lab .ba, .lab .ba, .lab .ba, .kill .ab, .interrupt .ab,
    .lab .ab, .lab .ab, .lab .ba, .lab .ba, .lab .ba, .lab .ba]

def rescued : State := (rescue.foldlM (step blocking) .init).getD .init

theorem disciplined_of_run_rescued :
    (∀ t, (rescued.here t).Waits) ∧ (∀ m, rescued.owner m = none) ∧ rescued.blocked = 0 := by
  have waits : ∀ t, (rescued.here t).Waits := by decide
  have run : Run (Fires (step blocking)) .init rescue rescued := run_of_foldlM rfl
  exact ⟨waits, (disciplined_of_run blocking run).released waits⟩

end LinuxInterview.DlLab.Abba
