import LinuxInterview.Library.Runs

/-!
# The work items of `wq_probe.c`

The loading of the module, the workers and the unloading, interleaved. Time is counted in
milliseconds and a sleep takes at least as long as it was asked for.
-/

namespace LinuxInterview.WqProbe
open Library

structure Params where
  mode : Int32
  nwork : Int32
  sleepMs : Int32
  burnMs : Int32
  deriving DecidableEq, Repr

def maxw : Nat := 32

/-- The stages of `work_sleep_fn` and `work_burn_fn`, from the queue to the return. -/
inductive Item
  | idle
  | queued
  | started (since : Nat)
  | waited
  | counted
  deriving DecidableEq, Repr

inductive MainAt
  | init
  | queue (i : Nat)
  | pause (wake : Nat)
  | await (deadline : Nat)
  | loaded
  | flush
  | destroy
  | unloaded
  deriving DecidableEq, Repr

structure State where
  now : Nat
  items : Nat → Item
  remaining : Int32
  allDone : Nat
  myWq : Bool
  mainAt : MainAt

def State.init : State where
  now := 0
  items _ := .idle
  remaining := 0
  allDone := 0
  myWq := false
  mainAt := .init

namespace Params

/-- `wq_probe_init` cuts the number of items to the size of `pw`. -/
def clamped (p : Params) : Int32 := if p.nwork > 32 then 32 else p.nwork

def count (p : Params) : Nat := p.clamped.toInt.toNat

def onSystemWq (p : Params) : Bool := p.mode = 0 ∨ p.mode = 1

def onMyWq (p : Params) : Bool := p.mode = 2 ∨ p.mode = 3

/-- 256 is the default of a workqueue such as `system_wq`. -/
def maxActive (p : Params) : Nat := if p.mode = 2 then 1 else if p.mode = 3 then 2 else 256

/-- The argument of `msleep` is unsigned. -/
def msleep (ms : Int32) : Nat := ms.toUInt32.toNat

def pause (p : Params) : Nat :=
  msleep (if p.mode = 0 then p.sleepMs / 2 else p.burnMs * p.clamped / 2 + 5)

def patience (p : Params) : Nat := if p.mode = 0 then 30000 else 60000

def duration (p : Params) : Nat := if p.mode = 1 then p.burnMs.toInt.toNat else msleep p.sleepMs

end Params

def Item.active : Item → Bool
  | .idle | .queued => false
  | _ => true

def State.active (s : State) : Nat := (List.range maxw).countP fun i => (s.items i).active

/-- `wq_probe_init` up to `loaded`, then `wq_probe_exit`. `memory` says whether the workqueue is
allocated. -/
def main (p : Params) (memory : Bool) (s : State) : Option State :=
  match s.mainAt with
  | .init =>
      if p.onSystemWq then some { s with remaining := p.clamped, mainAt := .queue 0 }
      else if p.onMyWq then
        if memory then some { s with
          myWq := true
          remaining := p.clamped
          mainAt := .queue 0 }
        else some { s with mainAt := .loaded }
      else some { s with mainAt := .loaded }
  | .queue i =>
      if i < p.count then
        some { s with items := Function.update s.items i .queued, mainAt := .queue (i + 1) }
      else if p.onSystemWq then some { s with mainAt := .pause (s.now + p.pause) }
      else some { s with mainAt := .await (s.now + p.patience) }
  | .pause wake => if wake ≤ s.now then some { s with mainAt := .await (s.now + p.patience) } else none
  | .await deadline =>
      if 0 < s.allDone then some { s with allDone := s.allDone - 1, mainAt := .loaded }
      else if deadline ≤ s.now then some { s with mainAt := .loaded }
      else none
  | .loaded => some { s with mainAt := if s.myWq then .flush else .unloaded }
  -- with a workqueue of its own the module has queued every item there
  | .flush => if ∀ i ∈ List.range maxw, s.items i = .idle then some { s with mainAt := .destroy } else none
  | .destroy => some { s with mainAt := .unloaded }
  | .unloaded => none

def work (p : Params) (i : Nat) (s : State) : Option State :=
  match s.items i with
  | .idle => none
  | .queued =>
      if s.active < p.maxActive then some { s with items := Function.update s.items i (.started s.now) }
      else none
  | .started since =>
      if since + p.duration ≤ s.now then some { s with items := Function.update s.items i .waited }
      else none
  | .waited => some { s with
      remaining := s.remaining - 1
      allDone := if s.remaining - 1 = 0 then s.allDone + 1 else s.allDone
      items := Function.update s.items i .counted }
  | .counted => some { s with items := Function.update s.items i .idle }

inductive Event
  | main (memory : Bool)
  | work (i : Nat)
  | pass (ms : Nat)
  deriving DecidableEq, Repr

def step (p : Params) (s : State) : Event → Option State
  | .main memory => main p memory s
  | .work i => work p i s
  | .pass ms => some { s with now := s.now + ms }

abbrev Runs (p : Params) := Run (Fires (step p)) State.init

end LinuxInterview.WqProbe
