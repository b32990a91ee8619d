import LinuxInterview.Library.Runs

/-!
# The writer and the reader of `barrier_mp.c`

Each access to memory is one step, in program order, as the modes `acqrel` and `dmb` enforce. The
mode `relaxed` promises no such order.
-/

namespace LinuxInterview.BarrierMp
open Library

inductive Mode
  | acqrel
  | dmb
  deriving DecidableEq, Repr

inductive Origin
  | initial
  | writer (i : Nat)
  | reader (i : Nat)
  deriving DecidableEq, Repr

structure Cell where
  value : Int32
  origin : Origin
  deriving DecidableEq, Repr

inductive WriterAt
  | test
  | awaitClear
  | storeData
  | barrier
  | storeFlag
  | returned
  deriving DecidableEq, Repr

inductive ReaderAt
  | test
  | awaitFlag
  | barrier
  | loadData
  | countObserved
  | countViolation
  | clearData
  | clearFlag
  | returned
  deriving DecidableEq, Repr

/-- `observations` records what the reader's loads of the data gave. -/
structure State where
  data : Cell
  flag : Int32
  writerAt : WriterAt
  writerI : Nat
  readerAt : ReaderAt
  readerI : Nat
  d : Cell
  observed : Nat
  violations : Nat
  observations : List Cell
  deriving DecidableEq, Repr

def State.init : State where
  data := ⟨0, .initial⟩
  flag := 0
  writerAt := .test
  writerI := 0
  readerAt := .test
  readerI := 0
  d := ⟨0, .initial⟩
  observed := 0
  violations := 0
  observations := []

def writer (mode : Mode) (iters : Nat) (s : State) : Option State :=
  match s.writerAt with
  | .test => some { s with writerAt := if s.writerI < iters then .awaitClear else .returned }
  | .awaitClear => some (if s.flag ≠ 0 then s else { s with writerAt := .storeData })
  | .storeData => some { s with
      data := ⟨42, .writer s.writerI⟩
      writerAt := if mode = .dmb then .barrier else .storeFlag }
  | .barrier => some { s with writerAt := .storeFlag }
  | .storeFlag => some { s with flag := 1, writerI := s.writerI + 1, writerAt := .test }
  | .returned => none

def reader (mode : Mode) (iters : Nat) (s : State) : Option State :=
  match s.readerAt with
  | .test => some { s with readerAt := if s.readerI < iters then .awaitFlag else .returned }
  | .awaitFlag => some (
      if s.flag = 0 then s
      else { s with readerAt := if mode = .dmb then .barrier else .loadData })
  | .barrier => some { s with readerAt := .loadData }
  | .loadData => some { s with
      d := s.data
      observations := s.observations ++ [s.data]
      readerAt := .countObserved }
  | .countObserved => some { s with observed := s.observed + 1, readerAt := .countViolation }
  | .countViolation => some { s with
      violations := if s.d.value ≠ 42 then s.violations + 1 else s.violations
      readerAt := .clearData }
  | .clearData => some { s with data := ⟨0, .reader s.readerI⟩, readerAt := .clearFlag }
  | .clearFlag => some { s with flag := 0, readerI := s.readerI + 1, readerAt := .test }
  | .returned => none

inductive Actor
  | writer
  | reader
  deriving DecidableEq, Repr

def step (mode : Mode) (iters : Nat) (s : State) : Actor → Option State
  | .writer => writer mode iters s
  | .reader => reader mode iters s

abbrev Runs (mode : Mode) (iters : Nat) := Run (Fires (step mode iters)) State.init

end LinuxInterview.BarrierMp
