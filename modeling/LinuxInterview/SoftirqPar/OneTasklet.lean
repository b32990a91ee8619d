import LinuxInterview.Library.Tasklet
import LinuxInterview.SoftirqPar.Bump

/-!
# The one tasklet of `run_mode1` and `run_mode2`

`sched_one` and `late_sched` run in the interrupt handlers of any processors. The plain and the atomic
accesses of the callbacks are interleaved with theirs and with those of the kernel. The arrays by processor stand for
those of `MAXCPU` = 8 entries, so the machine has no more processors than that.
-/

namespace LinuxInterview.SoftirqPar.OneTasklet
open Library

inductive Mode
  | mode1
  | mode2
  deriving DecidableEq, Repr

/-- Where a callback is: the access it makes next, with its locals. -/
inductive Phase
  | out
  | stamping
  | seeing (now : Nat)
  | checking (now : Nat)
  | storing (now : Nat)
  | marking
  | counting
  | bumping
  | viewing
  | spinning
  | leaving
  | ending
  | closing (now : Nat)
  | returning
  deriving DecidableEq, Repr

/-- Where `one_fn` and `one2_fn` begin. -/
def Mode.entry : Mode → Phase
  | .mode1 => .stamping
  | .mode2 => .marking

/-- Whether the callback makes an access next that is neither of a clock nor of `bump`. -/
def Phase.ownNext (stage : Stage) : Phase → Prop
  | .seeing _ | .checking _ | .storing _ | .marking | .counting | .viewing | .leaving | .closing _ => True
  | .bumping => stage = .inside
  | .out | .stamping | .spinning | .ending | .returning => False

structure State (ι : Type) where
  kernel : Tasklet ι
  counters : Counters ι
  phase : ι → Phase
  /-- The handlers between the count of the call and the call. -/
  handler : ι → Bool
  clock : Nat
  sched_calls : Nat
  runs : Nat
  cpu_seen : ι → Bool
  per_cpu_runs : ι → Nat
  t_first : Nat
  t_last : Nat
  state_at_entry : Nat
  state_during_run : Nat

inductive Act (ι : Type)
  | tick (d : Nat)
  | count (i : ι)
  | kernel (e : TaskletEvent ι)
  | counters (e : Event ι)
  | begin (i : ι) (now : Nat)
  | finish (i : ι) (now : Nat)
  | own (i : ι)
  deriving DecidableEq

namespace State

variable {ι : Type} [DecidableEq ι]

def start : State ι where
  kernel := Tasklet.setup
  counters := Counters.start
  phase _ := .out
  handler _ := false
  clock := 1
  sched_calls := 0
  runs := 0
  cpu_seen _ := false
  per_cpu_runs _ := 0
  t_first := 0
  t_last := 0
  state_at_entry := 0
  state_during_run := 0

/-- `t->state`, with `TASKLET_STATE_SCHED` in bit 0 and `TASKLET_STATE_RUN` in bit 1. -/
def tState (s : State ι) : Nat := s.kernel.sched.toNat + 2 * s.kernel.run.toNat

def goto (s : State ι) (i : ι) (phase : Phase) : State ι := { s with phase := Function.update s.phase i phase }

/-- Where the module has to be for an event of the kernel. -/
def readyFor (s : State ι) : TaskletEvent ι → Prop
  | .schedule i _ => s.handler i = true
  | .ret i => s.phase i = .returning
  | _ => True

/-- Where the callback has to be for an access to the counters. -/
def counting (s : State ι) : Event ι → Prop
  | .incReturn i | .readMax i | .cmpxchg i => s.phase i = .bumping
  | .dec i => s.phase i = .spinning
  | .reset => False

def permits (s : State ι) : Act ι → Prop
  | .tick _ => True
  | .count i => s.handler i = false
  | .kernel e => s.kernel.permits e ∧ s.readyFor e
  | .counters e => s.counters.permits e ∧ s.counting e
  | .begin i now => s.phase i = .stamping ∧ s.clock = now
  | .finish i now => s.phase i = .ending ∧ s.clock = now
  | .own i => (s.phase i).ownNext (s.counters.stage i)

instance (s : State ι) (e : TaskletEvent ι) : Decidable (s.readyFor e) :=
  match e with
  | .schedule _ _ | .ret _ => inferInstanceAs (Decidable (_ = _))
  | .add _ | .take _ | .tryLock _ | .putBack _ | .clear _ | .unlock _ => inferInstanceAs (Decidable True)

instance (s : State ι) (e : Event ι) : Decidable (s.counting e) :=
  match e with
  | .incReturn _ | .readMax _ | .cmpxchg _ | .dec _ => inferInstanceAs (Decidable (_ = _))
  | .reset => inferInstanceAs (Decidable False)

instance (stage : Stage) (phase : Phase) : Decidable (phase.ownNext stage) :=
  match phase with
  | .seeing _ | .checking _ | .storing _ | .marking | .counting | .viewing | .leaving | .closing _ =>
      inferInstanceAs (Decidable True)
  | .bumping => inferInstanceAs (Decidable (_ = _))
  | .out | .stamping | .spinning | .ending | .returning => inferInstanceAs (Decidable False)

instance [Fintype ι] (s : State ι) (a : Act ι) : Decidable (s.permits a) :=
  match a with
  | .tick _ => inferInstanceAs (Decidable True)
  | .count _ => inferInstanceAs (Decidable (_ = _))
  | .kernel _ | .counters _ | .begin _ _ | .finish _ _ => inferInstanceAs (Decidable (_ ∧ _))
  | .own i => inferInstanceAs (Decidable ((s.phase i).ownNext (s.counters.stage i)))

/-- An access of `one_fn` and `one2_fn` that is neither of a clock nor of `bump`. -/
def own (mode : Mode) (s : State ι) (i : ι) : State ι :=
  match s.phase i with
  | .seeing now => { s.goto i (.checking now) with state_at_entry := s.tState }
  | .checking now => s.goto i (if s.t_first = 0 then .storing now else .marking)
  | .storing now => { s.goto i .marking with t_first := now }
  | .marking => { s.goto i .counting with cpu_seen := Function.update s.cpu_seen i true }
  | .counting =>
      { s.goto i .bumping with per_cpu_runs := Function.update s.per_cpu_runs i (s.per_cpu_runs i + 1) }
  | .bumping => s.goto i (if mode = .mode2 then .viewing else .spinning)
  | .viewing => { s.goto i .spinning with state_during_run := s.tState }
  | .leaving => { s.goto i .ending with runs := s.runs + 1 }
  | .closing now => { s.goto i .returning with t_last := now }
  | .out | .stamping | .spinning | .ending | .returning => s

def next (mode : Mode) (s : State ι) : Act ι → State ι
  | .tick d => { s with clock := s.clock + d }
  | .count i => { s with
      sched_calls := s.sched_calls + 1
      handler := Function.update s.handler i true }
  | .kernel (.schedule i old) => { s with
      kernel := s.kernel.next (.schedule i old)
      handler := Function.update s.handler i false }
  | .kernel (.clear i) =>
      { (if s.kernel.sched then s.goto i mode.entry else s) with kernel := s.kernel.next (.clear i) }
  | .kernel (.ret i) => { s.goto i .out with kernel := s.kernel.next (.ret i) }
  | .kernel e => { s with kernel := s.kernel.next e }
  | .counters (.dec i) => { s.goto i .leaving with counters := s.counters.next (.dec i) }
  | .counters e => { s with counters := s.counters.next e }
  | .begin i now => s.goto i (.seeing now)
  | .finish i now => s.goto i (.closing now)
  | .own i => s.own mode i

def step (mode : Mode) : State ι → Act ι → State ι → Prop := Guarded permits (next mode)

/-- Nothing is on its way any more. -/
def Settled (s : State ι) : Prop :=
  ∀ i, s.handler i = false ∧ s.kernel.adding i = false ∧ s.kernel.listed i = false ∧ s.kernel.soft i = .away

/-! ## The kernel's part of a run -/

def kernelEvents (acts : List (Act ι)) : List (TaskletEvent ι) :=
  acts.filterMap fun
    | .kernel e => some e
    | _ => none

variable {mode : Mode} {acts : List (Act ι)} {s s' : State ι}

theorem own_kernel (s : State ι) (i : ι) : (s.own mode i).kernel = s.kernel := by
  unfold own
  split <;> rfl

theorem next_kernel (s : State ι) (e : TaskletEvent ι) : (s.next mode (.kernel e)).kernel = s.kernel.next e := by
  cases e <;> rfl

theorem next_kernel_ne {a : Act ι} (other : ∀ e, a ≠ .kernel e) : (s.next mode a).kernel = s.kernel := by
  cases a with
  | kernel e => exact absurd rfl (other e)
  | counters e => cases e <;> rfl
  | own i => exact own_kernel s i
  | _ => rfl

theorem kernel_run (run : Run (step mode) start acts s) :
    Run Tasklet.step Tasklet.setup (kernelEvents acts) s.kernel := by
  induction run with
  | nil => exact .nil
  | @snoc acts before after a run action ih =>
      obtain ⟨permitted, rfl⟩ := action
      rw [kernelEvents, List.filterMap_append]
      cases a with
      | kernel e =>
          rw [next_kernel]
          exact .snoc ih ⟨permitted.1, rfl⟩
      | _ =>
          rw [next_kernel_ne (by simp)]
          simpa [kernelEvents] using ih

/-! ## The callback that runs -/

/-- A processor is in the callback just where the kernel has called it there. -/
def Inside (s : State ι) : Prop := ∀ i, s.phase i = .out ↔ s.kernel.soft i ≠ .called

omit [DecidableEq ι] in
theorem inside_start : Inside (start : State ι) := fun _ => by simp [start, Tasklet.setup]

/-- The processor whose callback an act moves. -/
def mover : Act ι → Option ι
  | .kernel (.clear i) | .kernel (.ret i) => some i
  | .counters (.incReturn i) | .counters (.readMax i) | .counters (.cmpxchg i) | .counters (.dec i) => some i
  | .begin i _ | .finish i _ | .own i => some i
  | _ => none

theorem next_others (mode : Mode) {a : Act ι} {j : ι} (permitted : s.permits a) (other : mover a ≠ some j) :
    (s.next mode a).phase j = s.phase j ∧ (s.next mode a).counters.stage j = s.counters.stage j := by
  have moved {i : ι} (here : some i ≠ some j) : j ≠ i := by
    rintro rfl
    exact here rfl
  cases a with
  | tick d => exact ⟨rfl, rfl⟩
  | count i => exact ⟨rfl, rfl⟩
  | kernel e =>
      cases e with
      | clear i =>
          simp only [next]
          split <;> simp [goto, moved other]
      | ret i => simp [next, goto, moved other]
      | _ => exact ⟨rfl, rfl⟩
  | counters e =>
      cases e with
      | incReturn i => simp [next, Counters.next, moved other]
      | readMax i =>
          simp only [next, Counters.next]
          split <;> simp [moved other]
      | cmpxchg i =>
          simp only [next, Counters.next]
          split
          · split <;> simp [moved other]
          · simp
      | dec i => simp [next, goto, Counters.next, moved other]
      | reset => exact absurd permitted.2 id
  | begin i now => simp [next, goto, moved other]
  | finish i now => simp [next, goto, moved other]
  | own i =>
      simp only [next, own]
      split <;> simp [goto, moved other]

omit [DecidableEq ι] in
/-- A callback that is moved is not out, and it stays in until it returns; one that is called is out before. -/
theorem mover_phase (inside : Inside s) {a : Act ι} (permitted : s.permits a) {i : ι} (here : mover a = some i) :
    (a = .kernel (.clear i) ∧ s.phase i = .out) ∨ (a ≠ .kernel (.clear i) ∧ s.phase i ≠ .out) := by
  cases a with
  | kernel e =>
      obtain ⟨permitted, own⟩ := permitted
      cases e with
      | clear j =>
          obtain rfl : j = i := Option.some.inj here
          have locked : s.kernel.soft j = .locked := permitted
          exact .inl ⟨rfl, (inside j).mpr (by simp [locked])⟩
      | ret j =>
          obtain rfl : j = i := Option.some.inj here
          have returning : s.phase j = .returning := own
          exact .inr ⟨by simp, by simp [returning]⟩
      | _ => cases here
  | counters e =>
      obtain ⟨-, own⟩ := permitted
      refine .inr ⟨by simp, ?_⟩
      cases e with
      | reset => cases own
      | _ =>
          obtain rfl := Option.some.inj here
          simp only [counting] at own
          simp [own]
  | begin j now =>
      obtain rfl : j = i := Option.some.inj here
      exact .inr ⟨by simp, by simp [permitted.1]⟩
  | finish j now =>
      obtain rfl : j = i := Option.some.inj here
      exact .inr ⟨by simp, by simp [permitted.1]⟩
  | own j =>
      obtain rfl : j = i := Option.some.inj here
      refine .inr ⟨by simp, fun out => ?_⟩
      simp [permits, out, Phase.ownNext] at permitted
  | _ => cases here

/-- All callbacks are out, but for one, of which `V` holds. -/
def Solo (V : Phase → Stage → Prop) (s : State ι) : Prop :=
  ∃ i, (∀ j, j ≠ i → s.phase j = .out ∧ s.counters.stage j = .outside) ∧ V (s.phase i) (s.counters.stage i)

theorem Solo.next {V V' : Phase → Stage → Prop} (guards : Tasklet.Guards s.kernel) (inside : Inside s)
    (solo : Solo V s) (outside : ∀ g, V .out g → g = .outside) {a : Act ι} (permitted : s.permits a)
    (here : ∀ i, (∀ j, mover a = some j → j = i) → V (s.phase i) (s.counters.stage i) →
      V' ((s.next mode a).phase i) ((s.next mode a).counters.stage i)) : Solo V' (s.next mode a) := by
  obtain ⟨i, others, holds⟩ := solo
  by_cases mine : ∀ j, mover a = some j → j = i
  · refine ⟨i, fun j other => ?_, here i mine holds⟩
    obtain ⟨phase, stage⟩ := next_others mode permitted fun moved => other (mine j moved)
    rw [phase, stage]
    exact others j other
  · -- another processor is moved, which can only be by the call of its callback
    push Not at mine
    obtain ⟨j, moved, other⟩ := mine
    rcases mover_phase inside permitted moved with ⟨rfl, out⟩ | ⟨-, busy⟩
    · have locked : s.kernel.soft j = .locked := permitted.1
      have out' : s.phase i = .out := by
        rw [inside]
        intro called
        exact other (guards.lock.unique (by simp [locked, Soft.holds]) (by simp [called, Soft.holds]))
      rw [out'] at holds
      have quiet := outside _ holds
      refine ⟨j, fun k elsewhere => ?_, here j (by simp [mover]) ?_⟩
      · obtain ⟨phase, stage⟩ := next_others mode (j := k) permitted (by simpa [mover] using elsewhere.symm)
        rw [phase, stage]
        rcases eq_or_ne k i with rfl | neither
        · exact ⟨out', quiet⟩
        · exact others k neither
      · rw [out, (others j other).2, ← quiet]
        exact holds
    · exact absurd (others j other).1 busy

theorem entry_ne_out (mode : Mode) : mode.entry ≠ .out := by cases mode <;> simp [Mode.entry]

/-- Only the kernel gets a callback started and gets it out. -/
theorem phase_next_eq_out {a : Act ι} (permitted : s.permits a)
    (other : ∀ e, a ≠ .kernel e) (i : ι) : (s.next mode a).phase i = .out ↔ s.phase i = .out := by
  by_cases here : mover a = some i
  · cases a with
    | kernel e => exact absurd rfl (other e)
    | counters e =>
        obtain ⟨-, own⟩ := permitted
        cases e with
        | reset => cases own
        | incReturn j => rfl
        | readMax j => rfl
        | cmpxchg j => rfl
        | dec j =>
            obtain rfl : j = i := Option.some.inj here
            simp only [counting] at own
            simp [next, goto, own]
    | begin j now =>
        obtain rfl : j = i := Option.some.inj here
        simp [next, goto, permitted.1]
    | finish j now =>
        obtain rfl : j = i := Option.some.inj here
        simp [next, goto, permitted.1]
    | own j =>
        obtain rfl : j = i := Option.some.inj here
        simp only [next, own]
        split <;> rename_i phase <;> simp only [goto, Function.update_self, phase] <;> try simp
        · split <;> simp
        · split <;> simp
    | _ => cases here
  · rw [(next_others mode permitted here).1]

theorem Inside.next (guards : Tasklet.Guards s.kernel) (inside : Inside s) {a : Act ι} (permitted : s.permits a) :
    Inside (s.next mode a) := by
  intro i
  by_cases kernel : ∀ e, a ≠ .kernel e
  · rw [phase_next_eq_out permitted kernel, next_kernel_ne kernel]
    exact inside i
  · push Not at kernel
    obtain ⟨e, rfl⟩ := kernel
    rw [next_kernel, ne_eq, Tasklet.called_next guards permitted.1]
    cases e with
    | clear j =>
        have set : s.kernel.sched = true := guards.sched_of_locked permitted.1
        rcases eq_or_ne i j with rfl | other
        · simp [State.next, set, goto, entry_ne_out]
        · simp [State.next, set, goto, other, other.symm, inside i]
    | ret j =>
        rcases eq_or_ne i j with rfl | other
        · simp [State.next, goto]
        · simp [State.next, goto, other, other.symm, inside i]
    | _ => simpa [State.next] using inside i

theorem inside_of_run (run : Run (step mode) start acts s) : Inside s := by
  induction run with
  | nil => exact inside_start
  | snoc run action ih =>
      obtain ⟨permitted, rfl⟩ := action
      exact ih.next (Tasklet.guards_of_run (kernel_run run)) permitted

/-- The callback runs on one processor at a time. -/
theorem phase_unique (run : Run (step mode) start acts s) {i j : ι} (first : s.phase i ≠ .out)
    (second : s.phase j ≠ .out) : i = j := by
  have inside := inside_of_run run
  rw [ne_eq, inside, not_not] at first second
  exact Tasklet.called_unique (Tasklet.guards_of_run (kernel_run run)) first second

end State

end LinuxInterview.SoftirqPar.OneTasklet
