import LinuxInterview.Library.Runs

/-!
# The deadlocks of `dl_lab.c` that really block

Modes 1 and 2, thread by thread. A signal to a kernel thread that has not called `allow_signal` is
discarded, and `mutex_lock_interruptible` returns when a signal is pending.
-/

namespace LinuxInterview.DlLab
open Library

inductive Mutex
  | a
  | b
  deriving DecidableEq, Repr

/-- `th_aa`, `th_ab` and `th_ba`. -/
inductive Lab
  | aa
  | ab
  | ba
  deriving DecidableEq, Repr

inductive Mode
  | aaMutex
  | abba
  deriving DecidableEq, Repr

/-- The threads that `dl_lab_init` starts; the pointers of the others stay null. -/
def Mode.starts : Mode → Lab → Bool
  | .aaMutex, .aa => true
  | .abba, .ab => true
  | .abba, .ba => true
  | _, _ => false

structure AbbaArg where
  first : Mutex
  second : Mutex
  deriving DecidableEq, Repr

def argAb : AbbaArg := ⟨.a, .b⟩
def argBa : AbbaArg := ⟨.b, .a⟩

inductive LabAt
  | allowSignal
  | lockFirst
  | msleep
  | asleep (till : Nat)
  | lockSecond
  | unlockSecond
  | unlockFirst
  | waitStop
  deriving DecidableEq, Repr

structure Thread where
  here : LabAt
  allowed : Bool
  pending : Bool
  deriving DecidableEq, Repr

inductive WatchdogAt
  | msleep
  | asleep (till : Nat)
  | kill (t : Lab)
  | waitStop
  deriving DecidableEq, Repr

/-- `now` is in milliseconds. -/
structure State where
  now : Nat
  owner : Mutex → Option Lab
  labs : Lab → Thread
  watchdog : WatchdogAt

def State.init : State where
  now := 0
  owner _ := none
  labs _ := ⟨.allowSignal, false, false⟩
  watchdog := .msleep

namespace State

def goto (s : State) (t : Lab) (here : LabAt) : State :=
  { s with labs := Function.update s.labs t { s.labs t with here := here } }

def allowSignal (s : State) (t : Lab) : State :=
  { s with labs := Function.update s.labs t { s.labs t with allowed := true } }

def lock (s : State) (t : Lab) (m : Mutex) : State :=
  { s with owner := Function.update s.owner m (some t) }

def unlock (s : State) (m : Mutex) : State :=
  { s with owner := Function.update s.owner m none }

/-- `send_sig(SIGKILL, t, 1)`. -/
def sendSig (s : State) (t : Lab) : State :=
  if (s.labs t).allowed then
    { s with labs := Function.update s.labs t { s.labs t with pending := true } }
  else s

end State

def mutexLock (s : State) (t : Lab) (m : Mutex) : Option State :=
  if s.owner m = none then some (s.lock t m) else none

/-- The returned value is 0, or -EINTR when a signal is pending. A thread that waits for its own
mutex may be told 0 then, which the source blames on `__mutex_trylock_or_handoff()`: whether the
kernel does so is `pretends`. -/
def mutexLockInterruptible (pretends : Bool) (s : State) (t : Lab) (m : Mutex) :
    Option (Int × State) :=
  match s.owner m with
  | none => some (0, s.lock t m)
  | some holder =>
      if (s.labs t).pending then some (if pretends ∧ holder = t then 0 else -4, s) else none

def aaMutexFn (pretends : Bool) (s : State) : Option State :=
  match (s.labs .aa).here with
  | .allowSignal => some ((s.allowSignal .aa).goto .aa .lockFirst)
  | .lockFirst => do
      let s ← mutexLock s .aa .a
      return s.goto .aa .lockSecond
  | .lockSecond => do
      let (ret, s) ← mutexLockInterruptible pretends s .aa .a
      return s.goto .aa (if ret = 0 then .unlockSecond else .unlockFirst)
  | .unlockSecond => some ((s.unlock .a).goto .aa .unlockFirst)
  | .unlockFirst => some ((s.unlock .a).goto .aa .waitStop)
  | .waitStop => some s
  | .msleep | .asleep _ => none

def abbaFn (pretends : Bool) (t : Lab) (a : AbbaArg) (s : State) : Option State :=
  match (s.labs t).here with
  | .allowSignal => some ((s.allowSignal t).goto t .lockFirst)
  | .lockFirst => do
      let s ← mutexLock s t a.first
      return s.goto t .msleep
  | .msleep => some (s.goto t (.asleep (s.now + 300)))
  | .asleep till => if till ≤ s.now then some (s.goto t .lockSecond) else none
  | .lockSecond => do
      let (ret, s) ← mutexLockInterruptible pretends s t a.second
      return s.goto t (if ret = 0 then .unlockSecond else .unlockFirst)
  | .unlockSecond => some ((s.unlock a.second).goto t .unlockFirst)
  | .unlockFirst => some ((s.unlock a.first).goto t .waitStop)
  | .waitStop => some s

/-- `msleep` takes an unsigned number, so a negative `escape_ms` is a very long sleep. -/
def watchdogFn (mode : Mode) (escapeMs : Int32) (s : State) : Option State :=
  let kill (t : Lab) : State := if mode.starts t then s.sendSig t else s
  match s.watchdog with
  | .msleep => some { s with watchdog := .asleep (s.now + escapeMs.toUInt32.toNat) }
  | .asleep till => if till ≤ s.now then some { s with watchdog := .kill .ab } else none
  | .kill .ab => some { kill .ab with watchdog := .kill .ba }
  | .kill .ba => some { kill .ba with watchdog := .kill .aa }
  | .kill .aa => some { kill .aa with watchdog := .waitStop }
  | .waitStop => some s

inductive Event
  | lab (t : Lab)
  | watchdog
  | pass (ms : Nat)
  deriving DecidableEq, Repr

def labFn (pretends : Bool) (s : State) : Lab → Option State
  | .aa => aaMutexFn pretends s
  | .ab => abbaFn pretends .ab argAb s
  | .ba => abbaFn pretends .ba argBa s

def step (mode : Mode) (escapeMs : Int32) (pretends : Bool) (s : State) : Event → Option State
  | .lab t => if mode.starts t then labFn pretends s t else none
  | .watchdog => watchdogFn mode escapeMs s
  | .pass ms => some { s with now := s.now + ms }

abbrev Runs (mode : Mode) (escapeMs : Int32) (pretends : Bool) :=
  Run (Fires (step mode escapeMs pretends)) State.init

end LinuxInterview.DlLab
