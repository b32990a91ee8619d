import LinuxInterview.Library.GracePeriod
import LinuxInterview.Library.Runs

/-!
# The reader, the writer and the clean-up of `rcu_demo.c`, mode 0

A `foo` is named by its place in the order of allocation. Each thread advances statement by
statement; nothing calls `kthread_stop`, so the loops end by their counters.
-/

namespace LinuxInterview.RcuDemo
open Library

inductive ReaderAt
  | unborn
  | test
  | readLock
  | dereference
  | print
  | readUnlock
  | finish
  | returned
  deriving DecidableEq, Repr

inductive WriterAt
  | unborn
  | test
  | kmalloc
  | copy
  | fill
  | assignPointer
  | callRcu
  | increment
  | finish
  | returned
  deriving DecidableEq, Repr

/-- `run_example` up to `loaded`, then `cleanup_example`. -/
inductive MainAt
  | kzalloc
  | assignPointer
  | runReader
  | runWriter
  | wait
  | loaded
  | clear
  | synchronize
  | grace
  | kfree
  | barrier
  | returned
  deriving DecidableEq, Repr

/-- `updates` and `seen` record what the writer completed and the reader printed. -/
structure State where
  allocated : Nat
  a : Nat → Int32
  frees : Nat → Nat
  gPtr : Option Nat
  done : Int32
  nrFreed : Int32
  sections : Nat
  opened : List Nat
  pending : List (Retired Nat Nat)
  readerAt : ReaderAt
  readerI : Int32
  readerP : Option Nat
  readerSection : Nat
  seen : List Int32
  writerAt : WriterAt
  writerI : Int32
  value : Int32
  old : Nat
  newPtr : Nat
  updates : Nat
  mainAt : MainAt
  mainP : Option Nat
  period : GracePeriod Nat

def State.init : State where
  allocated := 0
  a := fun _ => 0
  frees := fun _ => 0
  gPtr := none
  done := 0
  nrFreed := 0
  sections := 0
  opened := []
  pending := []
  readerAt := .unborn
  readerI := 0
  readerP := none
  readerSection := 0
  seen := []
  writerAt := .unborn
  writerI := 0
  value := 5
  old := 0
  newPtr := 0
  updates := 0
  mainAt := .kzalloc
  mainP := none
  period := []

def myrcuReaderThread (rounds : Int32) (s : State) : Option State :=
  match s.readerAt with
  | .test => some { s with
      readerI := s.readerI + 1
      readerAt := if s.readerI < rounds * 2 then .readLock else .finish }
  | .readLock => some { s with
      sections := s.sections + 1
      opened := s.sections :: s.opened
      readerSection := s.sections
      readerAt := .dereference }
  | .dereference => some { s with readerP := s.gPtr, readerAt := .print }
  | .print => some { s with seen := s.seen ++ (s.readerP.map s.a).toList, readerAt := .readUnlock }
  | .readUnlock => some { s with opened := s.opened.erase s.readerSection, readerAt := .test }
  | .finish => some { s with done := s.done + 1, readerAt := .returned }
  | .unborn | .returned => none

/-- `memory` says whether `kmalloc` succeeds. A null `old` would be an oops, so there is no step. -/
def myrcuWriterThread (rounds : Int32) (memory : Bool) (s : State) : Option State :=
  match s.writerAt with
  | .test => some { s with
      writerI := s.writerI + 1
      writerAt := if s.writerI < rounds then .kmalloc else .finish }
  | .kmalloc =>
      if memory then
        some { s with newPtr := s.allocated, allocated := s.allocated + 1, writerAt := .copy }
      else some { s with writerAt := .finish }
  | .copy => s.gPtr.map fun old => { s with
      old := old
      a := Function.update s.a s.newPtr (s.a old)
      writerAt := .fill }
  | .fill => some { s with a := Function.update s.a s.newPtr s.value, writerAt := .assignPointer }
  | .assignPointer => some { s with gPtr := some s.newPtr, writerAt := .callRcu }
  | .callRcu => some { s with
      pending := s.pending ++ [⟨s.old, s.opened⟩]
      updates := s.updates + 1
      writerAt := .increment }
  | .increment => some { s with value := s.value + 1, writerAt := .test }
  | .finish => some { s with done := s.done + 1, writerAt := .returned }
  | .unborn | .returned => none

def kfree (s : State) (x : Nat) : State :=
  { s with frees := Function.update s.frees x (s.frees x + 1) }

/-- Any callback whose grace period is over may run; no thread looks between its statements. -/
def myrcuDel (k : Nat) (s : State) : Option State :=
  match s.pending[k]? with
  | some r =>
      if r.period.Elapsed s.opened then
        some (kfree { s with pending := s.pending.eraseIdx k, nrFreed := s.nrFreed + 1 } r.object)
      else none
  | none => none

def moduleThread (memory : Bool) (s : State) : Option State :=
  match s.mainAt with
  | .kzalloc =>
      if memory then
        some { s with
          mainP := some s.allocated
          a := Function.update s.a s.allocated 0
          allocated := s.allocated + 1
          mainAt := .assignPointer }
      else some { s with mainAt := .loaded }
  | .assignPointer => some { s with gPtr := s.mainP, mainAt := .runReader }
  | .runReader => some { s with readerAt := .test, mainAt := .runWriter }
  | .runWriter => some { s with writerAt := .test, mainAt := .wait }
  | .wait => if s.done < 2 then none else some { s with mainAt := .loaded }
  | .loaded => some { s with mainP := s.gPtr, mainAt := .clear }
  | .clear => some { s with gPtr := none, mainAt := .synchronize }
  | .synchronize => some { s with period := s.opened, mainAt := .grace }
  | .grace => if s.period.Elapsed s.opened then some { s with mainAt := .kfree } else none
  | .kfree =>
      match s.mainP with
      | some p => some { kfree s p with mainAt := .barrier }
      | none => some { s with mainAt := .barrier }
  | .barrier => if s.pending.isEmpty then some { s with mainAt := .returned } else none
  | .returned => none

inductive Actor
  | reader
  | writer (memory : Bool)
  | callback (k : Nat)
  | main (memory : Bool)
  deriving DecidableEq, Repr

def step (rounds : Int32) (s : State) : Actor → Option State
  | .reader => myrcuReaderThread rounds s
  | .writer memory => myrcuWriterThread rounds memory s
  | .callback k => myrcuDel k s
  | .main memory => moduleThread memory s

abbrev Runs (rounds : Int32) := Run (Fires (step rounds)) State.init

end LinuxInterview.RcuDemo
