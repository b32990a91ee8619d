import LinuxInterview.Lockup.Watchdog

/-!
# The commands of `lockup_lab.c` and its unloading

Commands are written one after another. Between any two statements of a command the timers, the
threads and the clock go on: an armed timer may fire at any moment.
-/

namespace LinuxInterview.Lockup
open Library

inductive Command
  | wdOn
  | wdOff
  | thresh (a : Int32)
  | khungOn (a : Int32)
  | khungOff
  | soft (a b : Int32)
  | hard (a b : Int32)
  | hung (a : Int32)
  | stat
  deriving DecidableEq, Repr

/-- A command with the outcomes of its calls of `kthread_create`, by the CPU whose thread is created.
A command that creates a single thread looks at CPU 0. -/
structure Write where
  command : Command
  created : Nat → Bool

inductive Life
  | absent
  | running
  | stopping
  deriving DecidableEq, Repr

/-- `error` is what `kthread_run` returns when it fails. -/
inductive TaskPtr
  | null
  | error
  | task
  deriving DecidableEq, Repr

structure Trig where
  kind : Int32
  cpu : Int32
  secs : Int32
  deriving DecidableEq, Repr

/-- Where the process that writes the command, or unloads the module, is. -/
inductive Phase
  | idle
  | creating (left : List Nat) (created : Nat → Bool)
  | arming (left : List Nat)
  | cancelling (left : List Nat)
  | stopping (left : List Nat)
  | joining (cpu : Nat) (left : List Nat)
  | joiningKhung
  | unloaded
  | oops

/-- `clock` is `sched_clock()`. `started` records when the watchdog thread of a CPU was created, and `refreshed`
when that thread last wrote `touch_ts`. -/
structure LockupLab where
  watchdog : Watchdog
  clock : Nat
  armed : Nat → Bool
  threads : Nat → Life
  started : Nat → Nat
  refreshed : Nat → Option Nat
  hungTimeout : Int32
  khungThread : TaskPtr
  khung : Life
  generators : List Trig
  exiting : Bool
  phase : Phase

inductive LabEvent
  | write (w : Write)
  | exit
  | proceed
  | ipi (cpu : Nat)
  | timer (cpu : Nat)
  | thread (cpu : Nat)
  | threadReturns (cpu : Nat)
  | khungReturns
  | generatorReturns (i : Nat)
  | pass (ns : Nat)

namespace LockupLab

def loaded : LockupLab where
  watchdog := .loaded
  clock := 0
  armed _ := false
  threads _ := .absent
  started _ := 0
  refreshed _ := none
  hungTimeout := 10
  khungThread := .null
  khung := .absent
  generators := []
  exiting := false
  phase := .idle

def nowSec (s : LockupLab) : UInt64 := UInt64.ofNat s.clock / 1000000000

variable (mask : CpuMask)

/-! ## `ll_write` and `ll_exit` -/

def wdStart (created : Nat → Bool) (s : LockupLab) : LockupLab :=
  if s.watchdog.wdRunning then s else { s with phase := .creating mask.onlineCpus created }

/-- `kthread_stop(khung_thread)` wherever the source calls it; it faults on an error pointer. -/
def stopKhung (s : LockupLab) : LockupLab :=
  match s.khungThread with
  | .null => { s with phase := if s.exiting then .unloaded else .idle }
  | .error => { s with phase := .oops }
  | .task => { s with khung := .stopping, phase := .joiningKhung }

def afterWdStop (s : LockupLab) : LockupLab :=
  if s.exiting then s.stopKhung else { s with phase := .idle }

def wdStop (s : LockupLab) : LockupLab :=
  if s.watchdog.wdRunning then { s with phase := .cancelling mask.onlineCpus } else s.afterWdStop

def khungOn (secs : Int32) (created : Bool) (s : LockupLab) : LockupLab :=
  let s := { s with hungTimeout := secs }
  match s.khungThread with
  | .null => if created then { s with khungThread := .task, khung := .running }
      else { s with khungThread := .error }
  | .error | .task => s

def trigger (kind cpu secs : Int32) (created : Bool) (s : LockupLab) : LockupLab :=
  if created then { s with generators := s.generators ++ [⟨kind, cpu, secs⟩] } else s

def llWrite (w : Write) (s : LockupLab) : LockupLab :=
  match w.command with
  | .wdOn => s.wdStart mask w.created
  | .wdOff => s.wdStop mask
  | .thresh a => { s with watchdog := { s.watchdog with thresh := a } }
  | .khungOn a => s.khungOn a (w.created 0)
  | .khungOff => s.stopKhung
  | .soft a b => s.trigger 0 a b (w.created 0)
  | .hard a b => s.trigger 1 a b (w.created 0)
  | .hung a => s.trigger 2 0 a (w.created 0)
  | .stat => s

def llExit (s : LockupLab) : LockupLab := wdStop mask { s with exiting := true }

/-! ## The statements of `wd_start` and `wd_stop` -/

def startThread (created : Nat → Bool) (cpu : Nat) (s : LockupLab) : LockupLab := { s with
  watchdog := s.watchdog.startThread created cpu
  threads := if created cpu then Function.update s.threads cpu .running else s.threads
  started := if created cpu then Function.update s.started cpu s.clock else s.started
  refreshed := if created cpu then Function.update s.refreshed cpu none else s.refreshed }

/-- `kthread_stop` returns when the thread has returned. -/
def proceed (s : LockupLab) : Option LockupLab :=
  match s.phase with
  | .creating (cpu :: left) created =>
      some { s.startThread created cpu with phase := .creating left created }
  | .creating [] _ => some { s with phase := .arming mask.onlineCpus }
  | .arming [] => some { s with watchdog := { s.watchdog with wdRunning := true }, phase := .idle }
  | .cancelling (cpu :: left) => some { s with
      armed := Function.update s.armed cpu false
      phase := .cancelling left }
  | .cancelling [] => some { s with phase := .stopping mask.onlineCpus }
  | .stopping (cpu :: left) =>
      if s.watchdog.wdThread cpu then some { s with
        watchdog := { s.watchdog with wdThread := Function.update s.watchdog.wdThread cpu false }
        threads := Function.update s.threads cpu .stopping
        phase := .joining cpu left }
      else some { s with phase := .stopping left }
  | .joining cpu left => if s.threads cpu = .absent then some { s with phase := .stopping left } else none
  | .stopping [] => some { s with watchdog := { s.watchdog with wdRunning := false } }.afterWdStop
  | .joiningKhung =>
      if s.khung = .absent then
        some (if s.exiting then { s with phase := .unloaded }
          else { s with khungThread := .null, phase := .idle })
      else none
  | .arming (_ :: _) | .idle | .unloaded | .oops => none

/-- `on_each_cpu` runs `start_hrtimer_local` on the CPUs in any order. -/
def ipi (cpu : Nat) (s : LockupLab) : Option LockupLab :=
  match s.phase with
  | .arming left =>
      if cpu ∈ left then some { s with
        watchdog := s.watchdog.startHrtimerLocal (fun _ => s.nowSec) cpu
        armed := Function.update s.armed cpu true
        phase := .arming (left.erase cpu) }
      else none
  | _ => none

def step (s : LockupLab) : LabEvent → Option LockupLab
  | .write w => match s.phase with
      | .idle => some (s.llWrite mask w)
      | _ => none
  | .exit => match s.phase with
      | .idle => some (s.llExit mask)
      | _ => none
  | .proceed => s.proceed mask
  | .ipi cpu => s.ipi cpu
  | .timer cpu =>
      if s.armed cpu then some { s with watchdog := s.watchdog.wdTimerFn mask cpu s.nowSec } else none
  | .thread cpu =>
      if s.threads cpu = .absent then none
      else some { s with
        watchdog := s.watchdog.wdThreadFn cpu s.nowSec
        refreshed := Function.update s.refreshed cpu (some s.clock) }
  | .threadReturns cpu =>
      if s.threads cpu = .stopping then
        some { s with threads := Function.update s.threads cpu .absent }
      else none
  | .khungReturns => if s.khung = .stopping then some { s with khung := .absent } else none
  | .generatorReturns i => some { s with generators := s.generators.eraseIdx i }
  | .pass ns => some { s with clock := s.clock + ns }

end LockupLab

abbrev LabRuns (mask : CpuMask) := Run (Fires (LockupLab.step mask)) LockupLab.loaded

def LabEvent.write? : LabEvent → Option Write
  | .write w => some w
  | _ => none

def writes (events : List LabEvent) : List Write := events.filterMap LabEvent.write?

theorem writes_append (first second : List LabEvent) :
    writes (first ++ second) = writes first ++ writes second :=
  List.filterMap_append

theorem writes_singleton {event : LabEvent} (none : event.write? = none) : writes [event] = [] := by
  rw [writes, List.filterMap_cons_none none, List.filterMap_nil]

end LinuxInterview.Lockup
