import LinuxInterview.Library.Reordering

/-!
# The two threads of `barrier_sb.c` and the count of what they see

A round starts when both threads are past the test of `go`, before which neither touches a slot.
-/

namespace LinuxInterview.BarrierSb
open Library

inductive Mode
  | none
  | dmb
  | seqcst
  deriving DecidableEq, Repr

inductive Loc
  | x (i : Nat)
  | y (i : Nat)
  deriving DecidableEq, Repr

inductive Side
  | t0
  | t1
  deriving DecidableEq, Repr

inductive Part
  | store
  | barrier
  | load
  deriving DecidableEq, Repr

/-- An access of the loop body in its iteration `i`. -/
structure At where
  i : Nat
  part : Part
  deriving DecidableEq, Repr

def Part.index : Part → Nat
  | .store => 0
  | .barrier => 1
  | .load => 2

def At.before (j k : At) : Prop := j.i < k.i ∨ j.i = k.i ∧ j.part.index < k.part.index

def Mode.order : Mode → MemOrder
  | .seqcst => .seqCst
  | .none | .dmb => .relaxed

/-- The loop of a thread, by the places it stores to and loads from. -/
def loop (n : Nat) (mode : Mode) (mine theirs : Nat → Loc) (k : At) : Option (MemAccess Loc Int) :=
  if k.i < n then
    match k.part with
    | .store => some (.store mode.order (mine k.i) 1)
    | .barrier => if mode = .dmb then some .fence else none
    | .load => some (.load mode.order (theirs k.i))
  else none

def th0 (n : Nat) (mode : Mode) : At → Option (MemAccess Loc Int) := loop n mode .x .y

def th1 (n : Nat) (mode : Mode) : At → Option (MemAccess Loc Int) := loop n mode .y .x

def threads (n : Nat) (mode : Mode) : Threads Side At Loc Int where
  access
    | .t0 => th0 n mode
    | .t1 => th1 n mode
  before := At.before

abbrev State := Performed Side At Loc Int

abbrev Runs (n : Nat) (mode : Mode) (events : List (Side × At)) (s : State) : Prop :=
  (threads n mode).Runs (fun _ => 0) events s

/-- `pthread_join` of both threads. -/
def Joined (n : Nat) (mode : Mode) (s : State) : Prop :=
  ∀ t k, (threads n mode).access t k ≠ none → s.performed (t, k) = true

/-- `r0` and `r1` of a slot, which `memset` has cleared. -/
def State.r (s : State) (t : Side) (i : Nat) : Int := (s.loaded (t, ⟨i, .load⟩)).getD 0

structure Counts where
  n00 : Nat
  n01 : Nat
  n10 : Nat
  n11 : Nat
  deriving DecidableEq, Repr

namespace Counts

def zero : Counts := ⟨0, 0, 0, 0⟩

def add (c : Counts) (p q : Int) : Counts :=
  if p = 0 ∧ q = 0 then { c with n00 := c.n00 + 1 }
  else if p = 0 ∧ q ≠ 0 then { c with n01 := c.n01 + 1 }
  else if p ≠ 0 ∧ q = 0 then { c with n10 := c.n10 + 1 }
  else { c with n11 := c.n11 + 1 }

end Counts

def count (n : Nat) (c : Counts) (s : State) : Counts :=
  (List.range n).foldl (fun c i => c.add (s.r .t0 i) (s.r .t1 i)) c

/-- The numbers that `main` can print with `n` for `N` and `rep` for `REP`, over the ways in which its rounds
can end. -/
def Prints (n rep : Nat) (mode : Mode) (c : Counts) : Prop :=
  ∃ ends : List State, ends.length = rep ∧
    (∀ s ∈ ends, (∃ events, Runs n mode events s) ∧ Joined n mode s) ∧ ends.foldl (count n) .zero = c

end LinuxInterview.BarrierSb
