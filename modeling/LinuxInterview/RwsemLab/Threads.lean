import LinuxInterview.Library.Runs
import LinuxInterview.Library.RwSem

/-!
# The threads of `rwsem_lab.c`, mode 1

The loading of the module, its three threads and the unloading, interleaved. Time is counted in milliseconds
and a sleep takes at least as long as it was asked for. `kthread_stop` wakes a thread, but one that sleeps
or queues goes on with that; a thread that is stopped before it first runs never calls its function.
-/

namespace LinuxInterview.RwsemLab
open Library

/-- `th_holder`, `th_rd1` and `th_wr2`. -/
inductive Lab
  | holder
  | rd1
  | wr2
  deriving DecidableEq, Repr

def Lab.access : Lab → Access
  | .holder | .wr2 => .write
  | .rd1 => .read

inductive LabAt
  | absent
  | created
  | down
  | queued
  | hold
  | holding (till : Nat)
  | up
  | waitStop
  | asleep (till : Nat)
  | returned
  deriving DecidableEq, Repr

inductive MainAt
  | run (t : Lab)
  | pause (t : Lab) (till : Nat)
  | loaded
  | msleep (till : Nat)
  | stop (t : Lab)
  | wait (t : Lab)
  | unloaded
  deriving DecidableEq, Repr

structure State where
  now : Nat
  labSem : RwSem Lab
  releaseNow : Bool
  labs : Lab → LabAt
  shouldStop : Lab → Bool
  main : MainAt

def State.init : State where
  now := 0
  labSem := .free
  releaseNow := false
  labs _ := .absent
  shouldStop _ := false
  main := .run .holder

namespace State

def goto (s : State) (t : Lab) (here : LabAt) : State :=
  { s with labs := Function.update s.labs t here }

end State

/-- The sleeps of `lab_init`. -/
def Lab.settle : Lab → Nat
  | .holder => 300
  | .rd1 | .wr2 => 200

def Lab.runNext : Lab → MainAt
  | .holder => .run .rd1
  | .rd1 => .run .wr2
  | .wr2 => .loaded

def Lab.stopNext : Lab → MainAt
  | .rd1 => .stop .wr2
  | .wr2 => .stop .holder
  | .holder => .unloaded

/-- `lab_init` up to `loaded`, then `lab_exit`. -/
def main (s : State) : Option State :=
  match s.main with
  | .run t => some { s.goto t .created with main := .pause t (s.now + t.settle) }
  | .pause t till => if till ≤ s.now then some { s with main := t.runNext } else none
  | .loaded => some { s with releaseNow := true, main := .msleep (s.now + 500) }
  | .msleep till => if till ≤ s.now then some { s with main := .stop .rd1 } else none
  | .stop t => some { s with shouldStop := Function.update s.shouldStop t true, main := .wait t }
  | .wait t => if s.labs t = .returned then some { s with main := t.stopNext } else none
  | .unloaded => none

/-- `holder_fn`, `reader_fn` and `writer2_fn`, which differ in how they take the lock and in what they do
while they hold it. -/
def lab (t : Lab) (s : State) : Option State :=
  match s.labs t with
  | .absent => none
  | .created => some (s.goto t (if s.shouldStop t then .returned else .down))
  | .down => some { s.goto t .queued with labSem := s.labSem.enqueue t t.access }
  | .queued =>
      (s.labSem.take t).map fun labSem =>
        { s.goto t (if t = .holder then .hold else .up) with labSem := labSem }
  | .hold =>
      some (s.goto t (if s.shouldStop t = false ∧ s.releaseNow = false then .holding (s.now + 200) else .up))
  | .holding till => if till ≤ s.now then some (s.goto t .hold) else none
  | .up => some { s.goto t .waitStop with labSem := s.labSem.release t t.access }
  | .waitStop => some (s.goto t (if s.shouldStop t then .returned else .asleep (s.now + 100)))
  | .asleep till => if till ≤ s.now then some (s.goto t .waitStop) else none
  | .returned => none

inductive Event
  | main
  | lab (t : Lab)
  | pass (ms : Nat)
  deriving DecidableEq, Repr

def step (s : State) : Event → Option State
  | .main => main s
  | .lab t => lab t s
  | .pass ms => some { s with now := s.now + ms }

abbrev Runs := Run (Fires step) State.init

end LinuxInterview.RwsemLab
