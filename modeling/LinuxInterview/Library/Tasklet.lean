import LinuxInterview.Library.Runs

/-!
# A tasklet of the kernel

Any number of processors schedule one tasklet. `tasklet_schedule` sets the bit `SCHED` and, where it was
clear, puts the tasklet on the list of its processor. The softirq of a processor takes it from there, tries
to set the bit `RUN`, puts it back where that fails, and otherwise clears `SCHED`, calls the callback and
clears `RUN`.
-/

namespace LinuxInterview.Library

/-- The flag tells whether there is a place with the property, and there is one at most. -/
def Sole {α : Type*} (flag : Bool) (P : α → Prop) : Prop :=
  ∃ owner : Option α, owner.isSome = flag ∧ ∀ p, P p ↔ owner = some p

namespace Sole

variable {α : Type*} {flag : Bool} {P P' : α → Prop} {p q : α}

theorem none (nowhere : ∀ p, ¬ P p) : Sole false P := ⟨.none, rfl, fun p => by simp [nowhere p]⟩

theorem unique (sole : Sole flag P) (first : P p) (second : P q) : p = q := by
  obtain ⟨owner, -, iff⟩ := sole
  exact Option.some.inj (((iff p).mp first).symm.trans ((iff q).mp second))

theorem flag_eq_true (sole : Sole flag P) (here : P p) : flag = true := by
  obtain ⟨owner, rfl, iff⟩ := sole
  rw [(iff p).mp here]
  rfl

theorem nowhere (sole : Sole false P) (p : α) : ¬ P p := fun here =>
  Bool.false_ne_true (sole.flag_eq_true here)

theorem somewhere (sole : Sole true P) : ∃ p, P p := by
  obtain ⟨owner, some, iff⟩ := sole
  obtain ⟨p, owned⟩ := Option.isSome_iff_exists.mp some
  exact ⟨p, (iff p).mpr owned⟩

theorem congr (sole : Sole flag P) (same : ∀ p, P' p ↔ P p) : Sole flag P' := by
  obtain ⟨owner, some, iff⟩ := sole
  exact ⟨owner, some, fun p => (same p).trans (iff p)⟩

theorem enter (sole : Sole false P) (here : P' p) (others : ∀ q, q ≠ p → (P' q ↔ P q)) : Sole true P' := by
  refine ⟨some p, rfl, fun q => ?_⟩
  rw [Option.some.injEq]
  constructor
  · intro there
    by_contra other
    exact sole.nowhere q ((others q (Ne.symm other)).mp there)
  · rintro rfl
    exact here

theorem leave (sole : Sole flag P) (here : P p) (gone : ¬ P' p) (others : ∀ q, q ≠ p → (P' q ↔ P q)) :
    Sole false P' := by
  apply none
  intro q there
  rcases eq_or_ne q p with rfl | other
  · exact gone there
  · exact other (sole.unique ((others q other).mp there) here)

theorem move (sole : Sole flag P) (here : P p) (gone : ¬ P' p) (there : P' q)
    (others : ∀ r, r ≠ p → r ≠ q → (P' r ↔ P r)) : Sole flag P' := by
  rw [sole.flag_eq_true here]
  refine ⟨some q, rfl, fun r => ?_⟩
  rw [Option.some.injEq]
  constructor
  · intro held
    by_contra other
    have elsewhere : r ≠ p := by
      rintro rfl
      exact gone held
    exact elsewhere (sole.unique ((others r elsewhere (Ne.symm other)).mp held) here)
  · rintro rfl
    exact there

end Sole

/-- The softirq of a processor, between two of its accesses to the tasklet. -/
inductive Soft
  | away
  | taken
  | refused
  | locked
  | called
  | leaving
  deriving DecidableEq, Repr

def Soft.pending : Soft → Bool
  | .taken | .refused | .locked => true
  | .away | .called | .leaving => false

def Soft.holds : Soft → Bool
  | .locked | .called | .leaving => true
  | .away | .taken | .refused => false

structure Tasklet (ι : Type*) where
  sched : Bool
  run : Bool
  adding : ι → Bool
  listed : ι → Bool
  soft : ι → Soft

inductive TaskletEvent (ι : Type*)
  /-- `test_and_set_bit` of `SCHED` with the value that was there. -/
  | schedule (i : ι) (old : Bool)
  | add (i : ι)
  | take (i : ι)
  | tryLock (i : ι)
  | putBack (i : ι)
  | clear (i : ι)
  | ret (i : ι)
  | unlock (i : ι)
  deriving DecidableEq

namespace Tasklet

variable {ι : Type*} [DecidableEq ι]

/-- What `tasklet_setup` leaves. -/
def setup : Tasklet ι := ⟨false, false, fun _ => false, fun _ => false, fun _ => .away⟩

def permits (t : Tasklet ι) : TaskletEvent ι → Prop
  | .schedule i old => t.adding i = false ∧ t.sched = old
  | .add i => t.adding i = true
  | .take i => t.listed i = true ∧ t.soft i = .away
  | .tryLock i => t.soft i = .taken
  | .putBack i => t.soft i = .refused
  | .clear i => t.soft i = .locked
  | .ret i => t.soft i = .called
  | .unlock i => t.soft i = .leaving

instance (t : Tasklet ι) (e : TaskletEvent ι) : Decidable (t.permits e) :=
  match e with
  | .schedule _ _ | .take _ => inferInstanceAs (Decidable (_ ∧ _))
  | .add _ | .tryLock _ | .putBack _ | .clear _ | .ret _ | .unlock _ => inferInstanceAs (Decidable (_ = _))

def put (t : Tasklet ι) (i : ι) (stage : Soft) : Tasklet ι := { t with soft := Function.update t.soft i stage }

def next (t : Tasklet ι) : TaskletEvent ι → Tasklet ι
  | .schedule i old => if old then t else { t with sched := true, adding := Function.update t.adding i true }
  | .add i => { t with
      adding := Function.update t.adding i false
      listed := Function.update t.listed i true }
  | .take i => { t.put i .taken with listed := Function.update t.listed i false }
  | .tryLock i => if t.run then t.put i .refused else { t.put i .locked with run := true }
  | .putBack i => { t.put i .away with listed := Function.update t.listed i true }
  | .clear i => if t.sched then { t.put i .called with sched := false } else t.put i .leaving
  | .ret i => t.put i .leaving
  | .unlock i => { t.put i .away with run := false }

def step : Tasklet ι → TaskletEvent ι → Tasklet ι → Prop := Guarded permits next

/-- Where the one entry that `SCHED` stands for can be. -/
inductive Spot (ι : Type*)
  | adding (i : ι)
  | listed (i : ι)
  | soft (i : ι)

def token (t : Tasklet ι) : Spot ι → Prop
  | .adding i => t.adding i = true
  | .listed i => t.listed i = true
  | .soft i => (t.soft i).pending = true

structure Guards (t : Tasklet ι) : Prop where
  token : Sole t.sched t.token
  lock : Sole t.run fun i => (t.soft i).holds = true

omit [DecidableEq ι] in
theorem guards_setup : Guards (setup : Tasklet ι) where
  token := Sole.none fun p => by cases p <;> exact Bool.false_ne_true
  lock := Sole.none fun _ => Bool.false_ne_true

variable {t : Tasklet ι}

theorem token_put {i : ι} (stage : Soft) (pending : stage.pending = (t.soft i).pending) (p : Spot ι) :
    (t.put i stage).token p ↔ t.token p := by
  cases p with
  | adding j => rfl
  | listed j => rfl
  | soft j => rcases eq_or_ne j i with rfl | other <;> simp_all [put, Tasklet.token]

theorem holds_put {i : ι} (stage : Soft) (holds : stage.holds = (t.soft i).holds) (j : ι) :
    ((t.put i stage).soft j).holds = true ↔ (t.soft j).holds = true := by
  rcases eq_or_ne j i with rfl | other <;> simp_all [put]

theorem Guards.next (guards : Guards t) {e : TaskletEvent ι} (permitted : t.permits e) : Guards (t.next e) := by
  obtain ⟨token, lock⟩ := guards
  cases e with
  | schedule i old =>
      obtain ⟨idle, rfl⟩ := permitted
      cases set : t.sched with
      | true => simpa [Tasklet.next] using Guards.mk token lock
      | false =>
          rw [set] at token
          refine ⟨token.enter (p := .adding i) (by simp [Tasklet.next, Tasklet.token]) ?_, lock⟩
          rintro (j | j | j) other <;> simp_all [Tasklet.next, Tasklet.token]
  | add i =>
      refine ⟨token.move (p := .adding i) (q := .listed i) permitted (by simp [Tasklet.next, Tasklet.token])
        (by simp [Tasklet.next, Tasklet.token]) ?_, lock⟩
      rintro (j | j | j) other other' <;> simp_all [Tasklet.next, Tasklet.token]
  | take i =>
      obtain ⟨listed, away⟩ := permitted
      refine ⟨token.move (p := .listed i) (q := .soft i) listed (by simp [Tasklet.next, Tasklet.token])
        (by simp [Tasklet.next, put, Tasklet.token, Soft.pending]) ?_, lock.congr (holds_put .taken (by rw [away]; rfl))⟩
      rintro (j | j | j) other other' <;> simp_all [Tasklet.next, put, Tasklet.token]
  | tryLock i =>
      have taken : t.soft i = .taken := permitted
      cases held : t.run with
      | true =>
          simp only [Tasklet.next, held, if_true]
          exact ⟨token.congr (token_put .refused (by rw [taken]; rfl)), lock.congr (holds_put .refused (by rw [taken]; rfl))⟩
      | false =>
          rw [held] at lock
          simp only [Tasklet.next, held, Bool.false_eq_true, if_false]
          refine ⟨token.congr (token_put .locked (by rw [taken]; rfl)),
            lock.enter (p := i) (by simp [put, Soft.holds]) fun j other => ?_⟩
          simp_all [put]
  | putBack i =>
      have refused : t.soft i = .refused := permitted
      refine ⟨token.move (p := .soft i) (q := .listed i) (by simp [Tasklet.token, refused, Soft.pending])
        (by simp [Tasklet.next, put, Tasklet.token, Soft.pending]) (by simp [Tasklet.next, Tasklet.token]) ?_,
        lock.congr (holds_put .away (by rw [refused]; rfl))⟩
      rintro (j | j | j) other other' <;> simp_all [Tasklet.next, put, Tasklet.token]
  | clear i =>
      have locked : t.soft i = .locked := permitted
      have here : t.token (.soft i) := by simp [Tasklet.token, locked, Soft.pending]
      simp only [Tasklet.next, token.flag_eq_true here, if_true]
      refine ⟨token.leave here (by simp [put, Tasklet.token, Soft.pending]) ?_,
        lock.congr (holds_put .called (by rw [locked]; rfl))⟩
      rintro (j | j | j) other <;> simp_all [put, Tasklet.token]
  | ret i =>
      have called : t.soft i = .called := permitted
      exact ⟨token.congr (token_put .leaving (by rw [called]; rfl)), lock.congr (holds_put .leaving (by rw [called]; rfl))⟩
  | unlock i =>
      have leaving : t.soft i = .leaving := permitted
      refine ⟨token.congr (token_put .away (by rw [leaving]; rfl)), lock.leave (p := i) (by simp [leaving, Soft.holds])
        (by simp [Tasklet.next, put, Soft.holds]) fun j other => ?_⟩
      simp_all [Tasklet.next, put]

theorem guards_of_run {events : List (TaskletEvent ι)} (run : Run step setup events t) : Guards t := by
  apply run.invariant Guards guards_setup
  rintro before e after guards ⟨permitted, rfl⟩
  exact guards.next permitted

omit [DecidableEq ι] in
/-- The callback runs on one processor at most. -/
theorem called_unique (guards : Guards t) {i j : ι} (first : t.soft i = .called) (second : t.soft j = .called) :
    i = j :=
  guards.lock.unique (by simp [first, Soft.holds]) (by simp [second, Soft.holds])

omit [DecidableEq ι] in
theorem Guards.sched_of_locked (guards : Guards t) {i : ι} (locked : t.soft i = .locked) : t.sched = true :=
  guards.token.flag_eq_true (p := .soft i) (by simp [Tasklet.token, locked, Soft.pending])

theorem called_next (guards : Guards t) {e : TaskletEvent ι} (permitted : t.permits e) (i : ι) :
    (t.next e).soft i = .called ↔ e = .clear i ∨ (t.soft i = .called ∧ e ≠ .ret i) := by
  cases e with
  | schedule j old => cases old <;> simp [next]
  | add j => simp [next]
  | clear j =>
      have locked : t.soft j = .locked := permitted
      have set := guards.sched_of_locked locked
      rcases eq_or_ne i j with rfl | other
      · simp [next, set, put]
      · simp [next, set, put, other, other.symm]
  | tryLock j =>
      have taken : t.soft j = .taken := permitted
      rcases eq_or_ne i j with rfl | other
      · cases held : t.run <;> simp [next, held, put, taken]
      · cases held : t.run <;> simp [next, held, put, other]
  | take j =>
      have away := permitted.2
      rcases eq_or_ne i j with rfl | other
      · simp [next, put, away]
      · simp [next, put, other]
  | ret j =>
      rcases eq_or_ne i j with rfl | other
      · simp [next, put]
      · simp [next, put, other, other.symm]
  | putBack j =>
      have refused : t.soft j = .refused := permitted
      rcases eq_or_ne i j with rfl | other
      · simp [next, put, refused]
      · simp [next, put, other]
  | unlock j =>
      have leaving : t.soft j = .leaving := permitted
      rcases eq_or_ne i j with rfl | other
      · simp [next, put, leaving]
      · simp [next, put, other]

/-! ## No call that set `SCHED` is lost -/

def accepts : TaskletEvent ι → Bool
  | .schedule _ old => !old
  | _ => false

def calls : TaskletEvent ι → Bool
  | .clear _ => true
  | _ => false

theorem accepts_next (guards : Guards t) {e : TaskletEvent ι} (permitted : t.permits e) :
    (accepts e).toNat + t.sched.toNat = (calls e).toNat + (t.next e).sched.toNat := by
  cases e with
  | schedule i old =>
      obtain ⟨-, rfl⟩ := permitted
      cases set : t.sched <;> simp [accepts, calls, next, set]
  | tryLock i =>
      cases held : t.run <;> simp [accepts, calls, next, held, put]
  | clear i =>
      simp [accepts, calls, next, guards.sched_of_locked permitted]
  | _ => simp [accepts, calls, next, put]

theorem accepted_of_run {events : List (TaskletEvent ι)} (run : Run step setup events t) :
    events.countP accepts = events.countP calls + t.sched.toNat := by
  induction run with
  | nil => rfl
  | snoc run action ih =>
      obtain ⟨permitted, rfl⟩ := action
      have one := accepts_next (guards_of_run run) permitted
      rw [List.countP_append, List.countP_append, List.countP_singleton, List.countP_singleton]
      simp only [Bool.toNat, Bool.cond_eq_ite] at ih one ⊢
      omega

omit [DecidableEq ι] in
theorem sched_eq_false (guards : Guards t) (nothing : ∀ p, ¬ t.token p) : t.sched = false := by
  cases set : t.sched with
  | false => rfl
  | true =>
      have token := guards.token
      rw [set] at token
      obtain ⟨p, here⟩ := token.somewhere
      exact absurd here (nothing p)

end Tasklet

end LinuxInterview.Library
