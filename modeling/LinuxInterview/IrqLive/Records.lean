import LinuxInterview.IrqLive.Gates

/-!
# The records of a whole run

`pre_gic` keeps its numbers in every run. `pre_evt` keeps them where no hit counts itself past the limit or
before the one that counted itself last has printed.
-/

namespace LinuxInterview.IrqLive
open Library

namespace State

variable {ι : Type} {p : Params} {s : State ι} {e : Event ι}

/-- What is printed at the end is what the counters hold from then on. -/
def Exited (s : State ι) : Prop := ∀ t ∈ s.totals, (∀ i, s.stage i = .away) ∧ t = (s.got, s.evtGot)

theorem Exited.unprinted (exited : Exited s) {i : ι} (moving : s.stage i ≠ .away) : s.totals = none := by
  cases printed : s.totals with
  | none => rfl
  | some t => exact absurd ((exited t printed).1 i) moving

theorem exact_of_numbered {samples : Int32} {counter : Int} {labels : List Int} {pending : ι → Prop}
    (numbered : Numbered samples.toInt counter labels pending) {total : Option Int}
    (settled : ∀ printed ∈ total, (∀ i, ¬ pending i) ∧ printed = counter) : Exact samples labels total where
  numbered := numbered.in_order
  limited := numbered.length_le
  counted printed known := by rw [(settled printed known).2, numbered.settled (settled printed known).1]

variable [DecidableEq ι]

theorem Exited.next (exited : Exited s) (permitted : s.permits e) : Exited (s.next p e) := by
  have still : s.totals = none → e ≠ .exit → Exited (s.next p e) := by
    intro nothing goesOn t printed
    have kept : (s.next p e).totals = s.totals := by cases e <;> first | rfl | exact absurd rfl goesOn
    rw [kept, nothing] at printed
    cases printed
  have moving : ∀ {i : ι} {b : Stage}, s.stage i = b → b ≠ .away → s.totals = none := fun at_ other =>
    exited.unprinted (by rwa [at_])
  cases e with
  | gicHit i | evtHit i => exact still permitted.2 (by simp)
  | gicLock i => exact still (moving permitted.1 (by decide)) (by simp)
  | gicCheck i | gicRecheck i | gicInc i | gicPrint i | gicUnlock i | evtCheck i | evtIncReturn i | evtPrint i =>
      exact still (moving (i := i) permitted (by decide)) (by simp)
  | exit =>
      rintro t ⟨⟩
      exact ⟨permitted.1, rfl⟩

def gicInv (p : Params) (s : State ι) : Prop := GicInv p.samples.toInt s.got s.prlock s.gicLabels s.stage

theorem gicInv_next (inv : gicInv p s) (permitted : s.permits e) : gicInv p (s.next p e) := by
  cases e with
  | gicHit i => exact GicInv.outside inv (by rw [permitted.1]; rfl) rfl
  | gicCheck i pstate hwirq =>
      have at_ : s.stage i = .gicHit := permitted
      refine GicInv.outside inv (by rw [at_]; rfl) ?_
      split <;> rfl
  | gicLock i =>
      have free : GicInv p.samples.toInt s.got none s.gicLabels s.stage := permitted.2 ▸ inv
      exact free.take
  | gicRecheck i =>
      have at_ : s.stage i = .gicLocked := permitted
      refine GicInv.inside inv (by rw [at_]; rfl) ?_ ⟨by simp [at_], ?_⟩ fun passed => ?_
      · split <;> rfl
      · split <;> decide
      · split at passed
        · cases passed
        · rename_i below
          exact not_le.mp below
  | gicInc i =>
      have at_ : s.stage i = .gicPassed := permitted
      have counted := GicInv.count inv at_
      rw [← atomicInc_of_lt inv.numbered.counter_nonneg (inv.room i at_)] at counted
      exact counted
  | gicPrint i => exact GicInv.print inv permitted
  | gicUnlock i => exact GicInv.release inv permitted
  | evtHit i => exact GicInv.outside inv (by rw [permitted.1]; rfl) rfl
  | evtCheck i hwirq =>
      have at_ : s.stage i = .evtHit := permitted
      refine GicInv.outside inv (by rw [at_]; rfl) ?_
      split <;> rfl
  | evtIncReturn i =>
      have at_ : s.stage i = .evtAccepted := permitted
      refine GicInv.outside inv (by rw [at_]; rfl) ?_
      split <;> rfl
  | evtPrint i =>
      have at_ : s.stage i = .evtCounted := permitted
      exact GicInv.outside inv (by rw [at_]; rfl) rfl
  | exit => exact inv

def evtInv (p : Params) (s : State ι) : Prop :=
  Numbered p.samples.toInt s.evtGot s.evtLabels fun i => s.stage i = .evtCounted

theorem evtInv_outside {i : ι} {a b : Stage} (inv : evtInv p s) (at_ : s.stage i = b) (before : b ≠ .evtCounted)
    (after : a ≠ .evtCounted) :
    Numbered p.samples.toInt s.evtGot s.evtLabels fun j => Function.update s.stage i a j = .evtCounted :=
  inv.congr (update_iff (at_ ▸ before) after)

theorem evtInv_next (inv : evtInv p s) (permitted : s.permits e) (orderly : s.Orderly p e) :
    evtInv p (s.next p e) := by
  cases e with
  | gicHit i | gicLock i | evtHit i => exact evtInv_outside inv permitted.1 (by decide) (by decide)
  | gicInc i | gicPrint i | gicUnlock i => exact evtInv_outside inv permitted (by decide) (by decide)
  | gicCheck i pstate hwirq | gicRecheck i | evtCheck i hwirq =>
      refine evtInv_outside inv permitted (by decide) ?_
      split <;> decide
  | evtIncReturn i =>
      obtain ⟨room, nobody⟩ := orderly
      have counted := atomicInc_of_lt inv.counter_nonneg room
      have goesOn : ¬ p.samples.toInt < s.evtGot + 1 := by omega
      rw [evtInv, State.next, counted, if_neg goesOn]
      exact inv.count nobody room (eq_of_update nobody) (Function.update_self ..)
  | evtPrint i =>
      have at_ : s.stage i = .evtCounted := permitted
      refine inv.print at_ fun j here => ?_
      change Function.update s.stage i .away j = .evtCounted at here
      by_cases same : j = i
      · subst same
        simp at here
      · rw [Function.update_of_ne same] at here
        exact same (inv.unique j i here at_)
  | exit => exact inv

/-! ## Whole runs -/

theorem exited_of_run {events : List (Event ι)} (run : Run (step p) start events s) : Exited s := by
  refine run.invariant Exited (fun t printed => by cases printed) ?_
  rintro before e after exited ⟨permitted, rfl⟩
  exact exited.next permitted

theorem gicInv_of_run {events : List (Event ι)} (run : Run (step p) start events s) : gicInv p s := by
  refine run.invariant (gicInv p) ⟨fun i => ?_, fun i at_ => ?_, .start fun i at_ => ?_⟩ ?_
  · simp [start, Stage.locked]
  · cases at_
  · cases at_
  · rintro before e after inv ⟨permitted, rfl⟩
    exact gicInv_next inv permitted

theorem evtInv_of_orderly_run {events : List (Event ι)} (run : Run (orderlyStep p) start events s) : evtInv p s := by
  have begun : evtInv p (start : State ι) := Numbered.start fun i at_ => by cases at_
  refine run.invariant (evtInv p) begun ?_
  rintro before e after inv ⟨⟨permitted, orderly⟩, rfl⟩
  exact evtInv_next inv permitted orderly

theorem run_of_orderly_run {events : List (Event ι)} (run : Run (orderlyStep p) start events s) :
    Run (step p) start events s := by
  induction run with
  | nil => exact .nil
  | snoc _ action ih => exact .snoc ih ⟨action.1.1, action.2⟩

theorem gates_exact (p : Params) (events : List (Event ι)) (s : State ι) :
    (Run (step p) start events s → Exact p.samples s.gicLabels (s.totals.map Prod.fst)) ∧
    (Run (orderlyStep p) start events s → Exact p.samples s.evtLabels (s.totals.map Prod.snd)) := by
  have away : ∀ {b : Stage} {i : ι}, b ≠ .away → s.stage i = .away → ¬ s.stage i = b := by
    rintro b i other at_ rfl
    exact other at_
  constructor
  · intro run
    refine exact_of_numbered (gicInv_of_run run).numbered fun printed known => ?_
    obtain ⟨t, total, rfl⟩ := Option.mem_map.mp known
    obtain ⟨quiet, same⟩ := exited_of_run run t total
    exact ⟨fun i => away (by decide) (quiet i), by rw [same]⟩
  · intro run
    refine exact_of_numbered (evtInv_of_orderly_run run) fun printed known => ?_
    obtain ⟨t, total, rfl⟩ := Option.mem_map.mp known
    obtain ⟨quiet, same⟩ := exited_of_run (run_of_orderly_run run) t total
    exact ⟨fun i => away (by decide) (quiet i), by rw [same]⟩

def oneSample : Params := ⟨1, 0, -1⟩

/-- Both hits find the counter below the limit, and the second counts itself before the first prints. -/
def together : List (Event (Fin 2)) :=
  [.evtHit 0, .evtHit 1, .evtCheck 0 26, .evtCheck 1 26, .evtIncReturn 0, .evtIncReturn 1, .evtPrint 0, .exit]

theorem second_hit_spoils_number_and_total :
    Run (step oneSample) start together (together.foldl (next oneSample) start) ∧
      ¬ Exact oneSample.samples (together.foldl (next oneSample) start).evtLabels
        ((together.foldl (next oneSample) start).totals.map Prod.snd) := by
  refine ⟨run_of_permitted (by decide), fun exact => ?_⟩
  exact absurd exact.numbered (by decide)

def inTurn : List (Event (Fin 2)) :=
  [.gicHit 0, .gicHit 1, .gicCheck 0 (some 0) 26, .gicCheck 1 (some 0) 26, .gicLock 1, .gicRecheck 1, .gicInc 1,
    .gicPrint 1, .gicUnlock 1, .gicLock 0, .gicRecheck 0, .gicUnlock 0, .evtHit 0, .evtHit 1, .evtCheck 0 26,
    .evtIncReturn 0, .evtPrint 0, .evtCheck 1 26, .exit]

theorem gates_exact_inTurn :
    Exact oneSample.samples (inTurn.foldl (next oneSample) start).gicLabels
      ((inTurn.foldl (next oneSample) start).totals.map Prod.fst) ∧
    Exact oneSample.samples (inTurn.foldl (next oneSample) start).evtLabels
      ((inTurn.foldl (next oneSample) start).totals.map Prod.snd) :=
  ⟨(gates_exact oneSample inTurn _).1 (run_of_permitted (by decide)),
    (gates_exact oneSample inTurn _).2 (run_of_permitted (by decide))⟩

end State

end LinuxInterview.IrqLive
