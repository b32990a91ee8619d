import Mathlib.Data.UInt
import LinuxInterview.Library.Locks
import LinuxInterview.Library.Runs

/-!
# The threads of `lock_bench.c`, mode 1

`run_one_bench` creates the threads of a round one by one, each of which may already run, waits for
`running` to be 0, and adds up the static arrays. A thread reads its switch counts when it starts and when
it ends; how often it took the lock meanwhile is its own affair.
-/

namespace LinuxInterview.LockBench
open Library

def MAXT : Nat := 16

inductive Thread
  | absent
  | failed
  | made
  | benching
  | stored
  | gone
  deriving DecidableEq, Repr

namespace Thread

/-- Whether `running` still counts the thread. -/
def awaited : Thread → Int
  | .absent | .made | .benching | .stored => 1
  | .failed | .gone => 0

theorem awaited_nonneg (t : Thread) : 0 ≤ t.awaited := by
  cases t <;> decide

/-- Created and not gone. -/
def live : Thread → Bool
  | .made | .benching | .stored => true
  | .absent | .failed | .gone => false

theorem live_spec {t : Thread} (live : t.live = true) : t ≠ .absent ∧ t ≠ .failed ∧ t.awaited = 1 := by
  cases t
  all_goals simp_all [Thread.live, awaited]

end Thread

/-- What one `P` of `run_one_bench` prints. -/
structure Report where
  total : UInt64
  vcsw : UInt64
  ivcsw : UInt64
  deriving DecidableEq, Repr

/-- `nthr` and `i` are those of `run_one_bench` while it is `busy` with a round. -/
structure State where
  ops : Nat → UInt64
  t_nvcsw : Nat → UInt64
  t_nivcsw : Nat → UInt64
  running : Int
  busy : Bool
  nthr : Nat
  i : Nat
  thr : Nat → Thread

inductive Event
  | enter (nthr : Nat)
  | create (i : Nat) (ok : Bool)
  | start (idx : Nat) (nvcsw nivcsw : UInt64)
  | store (idx : Nat) (n nvcsw nivcsw : UInt64)
  | dec (idx : Nat)
  | print (report : Report)
  deriving DecidableEq, Repr

def sumTo (a : Nat → UInt64) : Nat → UInt64
  | 0 => 0
  | n + 1 => sumTo a n + a n

theorem sumTo_eq_sum (a : Nat → UInt64) (n : Nat) : sumTo a n = ∑ i ∈ Finset.range n, a i := by
  induction n with
  | zero => rfl
  | succ n ih => rw [sumTo, ih, Finset.sum_range_succ]

namespace State

def init : State where
  ops _ := 0
  t_nvcsw _ := 0
  t_nivcsw _ := 0
  running := 0
  busy := false
  nthr := 0
  i := 0
  thr _ := .absent

def report (s : State) : Report :=
  ⟨sumTo s.ops s.nthr, sumTo s.t_nvcsw s.nthr, sumTo s.t_nivcsw s.nthr⟩

/-- The rounds have `clamp(nthread, 1, min(MAXT, …))` threads, or one. -/
def permits (s : State) : Event → Prop
  | .enter nthr => s.busy = false ∧ 1 ≤ nthr ∧ nthr ≤ MAXT
  | .create i _ => s.busy = true ∧ i = s.i ∧ i < s.nthr
  | .start idx _ _ => s.thr idx = .made
  | .store idx _ _ _ => s.thr idx = .benching
  | .dec idx => s.thr idx = .stored
  | .print report => s.busy = true ∧ s.i = s.nthr ∧ s.running ≤ 0 ∧ report = s.report

instance (s : State) (e : Event) : Decidable (s.permits e) :=
  match e with
  | .enter _ | .create _ _ => inferInstanceAs (Decidable (_ ∧ _ ∧ _))
  | .start _ _ _ | .store _ _ _ _ | .dec _ => inferInstanceAs (Decidable (_ = _))
  | .print _ => inferInstanceAs (Decidable (_ ∧ _ ∧ _ ∧ _))

def next (s : State) : Event → State
  | .enter nthr =>
      { s with
        ops := fun _ => 0
        running := nthr
        busy := true
        nthr := nthr
        i := 0
        thr := fun _ => .absent }
  | .create i ok =>
      if ok then { s with i := s.i + 1, thr := Function.update s.thr i .made }
      else { s with i := s.i + 1, thr := Function.update s.thr i .failed, running := s.running - 1 }
  | .start idx nvcsw nivcsw =>
      { s with
        t_nvcsw := Function.update s.t_nvcsw idx nvcsw
        t_nivcsw := Function.update s.t_nivcsw idx nivcsw
        thr := Function.update s.thr idx .benching }
  | .store idx n nvcsw nivcsw =>
      { s with
        ops := Function.update s.ops idx n
        t_nvcsw := Function.update s.t_nvcsw idx (nvcsw - s.t_nvcsw idx)
        t_nivcsw := Function.update s.t_nivcsw idx (nivcsw - s.t_nivcsw idx)
        thr := Function.update s.thr idx .stored }
  | .dec idx => { s with running := s.running - 1, thr := Function.update s.thr idx .gone }
  | .print _ => { s with busy := false }

end State

def step : State → Event → State → Prop := Guarded State.permits State.next

def Runs : List Event → State → Prop := Run step .init

/-! ## What the events say of a round -/

/-- What a thread did, by the events alone. -/
structure Done where
  n : UInt64
  vcsw : UInt64
  ivcsw : UInt64
  deriving DecidableEq, Repr

/-- The round under way, and for each index what the last earlier round it ran in left behind. -/
structure Ledger where
  nthr : Nat
  began : Nat → UInt64 × UInt64
  ran : Nat → Option Done
  failed : Nat → Bool
  left : Nat → UInt64 × UInt64

namespace Ledger

def init : Ledger := ⟨0, fun _ => (0, 0), fun _ => none, fun _ => false, fun _ => (0, 0)⟩

def note (l : Ledger) : Event → Ledger
  | .enter nthr =>
      { l with
        nthr := nthr
        ran := fun _ => none
        failed := fun _ => false
        left := fun i => match l.ran i with
          | some done => (done.vcsw, done.ivcsw)
          | none => l.left i }
  | .create i ok => if ok then l else { l with failed := Function.update l.failed i true }
  | .start idx nvcsw nivcsw => { l with began := Function.update l.began idx (nvcsw, nivcsw) }
  | .store idx n nvcsw nivcsw =>
      { l with
        ran := Function.update l.ran idx
          (some ⟨n, nvcsw - (l.began idx).1, nivcsw - (l.began idx).2⟩) }
  | .dec _ | .print _ => l

/-- The sum over the threads that ran. -/
def sumRan (l : Ledger) (f : Done → UInt64) : UInt64 :=
  ∑ i ∈ Finset.range l.nthr, (l.ran i).elim 0 f

/-- The sum over the indices at which no thread could be created. -/
def sumLeft (l : Ledger) (f : UInt64 × UInt64 → UInt64) : UInt64 :=
  ∑ i ∈ Finset.range l.nthr with l.failed i, f (l.left i)

end Ledger

def ledger (events : List Event) : Ledger := events.foldl Ledger.note .init

end LinuxInterview.LockBench
