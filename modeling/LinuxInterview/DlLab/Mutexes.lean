import LinuxInterview.DlLab.Threads

/-!
# Who holds which mutex
-/

namespace LinuxInterview.DlLab
open Library

/-! ## The moves of a lab thread -/

def Lab.first : Lab → Mutex
  | .aa => .a
  | .ab => argAb.first
  | .ba => argBa.first

def Lab.second : Lab → Mutex
  | .aa => .a
  | .ab => argAb.second
  | .ba => argBa.second

def Lab.afterFirst : Lab → LabAt
  | .aa => .lockSecond
  | .ab | .ba => .msleep

def afterSignal (pretends : Bool) (t holder : Lab) : LabAt :=
  if pretends ∧ holder = t then .unlockSecond else .unlockFirst

inductive Move (pretends : Bool) (t : Lab) (s : State) : State → Prop
  | allowSignal : (s.labs t).here = .allowSignal →
      Move pretends t s ((s.allowSignal t).goto t .lockFirst)
  | lockFirst : (s.labs t).here = .lockFirst → s.owner t.first = none →
      Move pretends t s ((s.lock t t.first).goto t t.afterFirst)
  | msleep : (s.labs t).here = .msleep → t ≠ .aa → Move pretends t s (s.goto t (.asleep (s.now + 300)))
  | wake {till : Nat} : (s.labs t).here = .asleep till → t ≠ .aa → till ≤ s.now →
      Move pretends t s (s.goto t .lockSecond)
  | lockSecond : (s.labs t).here = .lockSecond → s.owner t.second = none →
      Move pretends t s ((s.lock t t.second).goto t .unlockSecond)
  | interrupted {holder : Lab} : (s.labs t).here = .lockSecond → s.owner t.second = some holder →
      (s.labs t).pending → Move pretends t s (s.goto t (afterSignal pretends t holder))
  | unlockSecond : (s.labs t).here = .unlockSecond →
      Move pretends t s ((s.unlock t.second).goto t .unlockFirst)
  | unlockFirst : (s.labs t).here = .unlockFirst →
      Move pretends t s ((s.unlock t.first).goto t .waitStop)
  | waitStop : (s.labs t).here = .waitStop → Move pretends t s s

variable {mode : Mode} {escapeMs : Int32} {pretends : Bool} {s s' : State} {t : Lab} {m : Mutex}

theorem mutexLock_eq_some : mutexLock s t m = some s' ↔ s.owner m = none ∧ s.lock t m = s' := by
  by_cases free : s.owner m = none
  · simp [mutexLock, free]
  · simp [mutexLock, free]

theorem lockInterruptible_eq_some {ret : Int} :
    mutexLockInterruptible pretends s t m = some (ret, s') ↔
      s.owner m = none ∧ ret = 0 ∧ s.lock t m = s' ∨
      (∃ holder, s.owner m = some holder ∧ (s.labs t).pending ∧
        ret = if pretends ∧ holder = t then 0 else -4) ∧ s = s' := by
  unfold mutexLockInterruptible
  cases owner : s.owner m with
  | none => simp [eq_comm (a := ret)]
  | some holder =>
      by_cases pending : (s.labs t).pending
      · simp [pending, eq_comm (a := ret)]
      · simp [pending]

theorem lockSecond_of_held {holder : Lab} (held : s.owner m = some holder)
    (pending : (s.labs t).pending) :
    (do
      let (ret, s) ← mutexLockInterruptible pretends s t m
      return s.goto t (if ret = 0 then .unlockSecond else .unlockFirst)) =
      some (s.goto t (afterSignal pretends t holder)) := by
  by_cases told : pretends ∧ holder = t
  · simp [mutexLockInterruptible, afterSignal, held, pending, told]
  · simp [mutexLockInterruptible, afterSignal, held, pending, told]

theorem move_of_lockSecond (here : (s.labs t).here = .lockSecond)
    (moved : (do
      let (ret, s) ← mutexLockInterruptible pretends s t t.second
      return s.goto t (if ret = 0 then .unlockSecond else .unlockFirst)) = some s') :
    Move pretends t s s' := by
  obtain ⟨⟨ret, locked⟩, lock, rest⟩ := Option.bind_eq_some_iff.mp moved
  cases rest
  rcases lockInterruptible_eq_some.mp lock with ⟨free, rfl, rfl⟩ | ⟨⟨holder, held, pending, rfl⟩, rfl⟩
  · exact .lockSecond here free
  · have told : (if (if pretends ∧ holder = t then (0 : Int) else -4) = 0 then LabAt.unlockSecond
        else .unlockFirst) = afterSignal pretends t holder := by
      unfold afterSignal
      split
      · rfl
      · rfl
    rw [told]
    exact .interrupted here held pending

theorem move_of_lockFirst {next : LabAt} (here : (s.labs t).here = .lockFirst)
    (after : t.afterFirst = next)
    (moved : (do
      let s ← mutexLock s t t.first
      return s.goto t next) = some s') : Move pretends t s s' := by
  obtain ⟨locked, lock, rest⟩ := Option.bind_eq_some_iff.mp moved
  obtain ⟨free, rfl⟩ := mutexLock_eq_some.mp lock
  cases rest
  subst after
  exact .lockFirst here free

theorem move_of_aaMutexFn (moved : aaMutexFn pretends s = some s') : Move pretends .aa s s' := by
  cases here : (s.labs .aa).here
  all_goals simp only [aaMutexFn, here] at moved
  case lockFirst => exact move_of_lockFirst here rfl moved
  case lockSecond => exact move_of_lockSecond here moved
  all_goals cases moved
  case allowSignal => exact .allowSignal here
  case unlockSecond => exact .unlockSecond here
  case unlockFirst => exact .unlockFirst here
  case waitStop => exact .waitStop here

theorem move_of_abbaFn (other : t ≠ .aa)
    (moved : abbaFn pretends t ⟨t.first, t.second⟩ s = some s') : Move pretends t s s' := by
  have after : t.afterFirst = .msleep := by
    cases t with
    | aa => contradiction
    | ab => rfl
    | ba => rfl
  cases here : (s.labs t).here
  all_goals simp only [abbaFn, here] at moved
  case lockFirst => exact move_of_lockFirst here after moved
  case lockSecond => exact move_of_lockSecond here moved
  case asleep till =>
    obtain ⟨due, moved⟩ := Option.ite_none_right_eq_some.mp moved
    cases moved
    exact .wake here other due
  all_goals cases moved
  case allowSignal => exact .allowSignal here
  case msleep => exact .msleep here other
  case unlockSecond => exact .unlockSecond here
  case unlockFirst => exact .unlockFirst here
  case waitStop => exact .waitStop here

theorem labFn_eq_abbaFn (other : t ≠ .aa) :
    labFn pretends s t = abbaFn pretends t ⟨t.first, t.second⟩ s := by
  cases t with
  | aa => contradiction
  | ab => rfl
  | ba => rfl

/-- The relation says neither less nor more than the functions of the two labs. -/
theorem labFn_eq_some : labFn pretends s t = some s' ↔ Move pretends t s s' := by
  constructor
  · intro moved
    by_cases recursive : t = .aa
    · subst recursive
      exact move_of_aaMutexFn moved
    · rw [labFn_eq_abbaFn recursive] at moved
      exact move_of_abbaFn recursive moved
  · intro moved
    cases moved with
    | allowSignal here => cases t <;> simp [labFn, aaMutexFn, abbaFn, here]
    | lockFirst here free => 
        cases t <;> simp_all [labFn, aaMutexFn, abbaFn, mutexLock, Lab.afterFirst, Lab.first, argAb, argBa]
    | msleep here other => simp [labFn_eq_abbaFn other, abbaFn, here]
    | wake here other due => simp [labFn_eq_abbaFn other, abbaFn, here, due]
    | lockSecond here free => 
        cases t <;> simp_all [labFn, aaMutexFn, abbaFn, mutexLockInterruptible, Lab.second, argAb, argBa]
    | interrupted here held pending =>
        by_cases recursive : t = .aa
        · subst recursive
          simp only [labFn, aaMutexFn, here]
          exact lockSecond_of_held held pending
        · simp only [labFn_eq_abbaFn recursive, abbaFn, here]
          exact lockSecond_of_held held pending
    | unlockSecond here => cases t <;> simp [labFn, aaMutexFn, abbaFn, here, Lab.second]
    | unlockFirst here => cases t <;> simp [labFn, aaMutexFn, abbaFn, here, Lab.first]
    | waitStop here => cases t <;> simp [labFn, aaMutexFn, abbaFn, here]

/-! ## Ownership -/

/-- What a thread holds by its place in the program. A recursive lock is held once. -/
def LabAt.holds (here : LabAt) (t : Lab) (m : Mutex) : Prop :=
  match here with
  | .allowSignal | .lockFirst | .waitStop => False
  | .msleep | .asleep _ | .lockSecond | .unlockFirst => m = t.first
  | .unlockSecond => m = t.first ∨ m = t.second

def LabAt.grips : LabAt → Prop
  | .msleep | .asleep _ | .lockSecond => True
  | .allowSignal | .lockFirst | .unlockSecond | .unlockFirst | .waitStop => False

/-- What `dl_aa` holds is known only until its second lock returns: its first `mutex_unlock` may
already free a mutex that it locked once. -/
structure Inv (mode : Mode) (s : State) : Prop where
  allowed : ∀ t, (s.labs t).allowed ↔ (s.labs t).here ≠ .allowSignal
  pending : ∀ t, (s.labs t).pending → (s.labs t).allowed
  holder : ∀ m t, s.owner m = some t → mode.starts t ∧ (s.labs t).here.holds t m
  owned : ∀ m t, mode.starts t → (s.labs t).here.holds t m → (t = .aa → (s.labs t).here.grips) →
    s.owner m = some t

theorem inv_init : Inv mode .init where
  allowed t := by simp [State.init]
  pending t := by simp [State.init]
  holder m t := by simp [State.init]
  owned m t := by simp [State.init, LabAt.holds]

theorem Mode.alone {u : Lab} (started : mode.starts t) (other : mode.starts u) (different : u ≠ t) :
    t ≠ .aa := by
  cases mode <;> cases t <;> cases u <;> simp_all [Mode.starts]

namespace Inv

theorem allowed_goto {next : LabAt} (inv : Inv mode s) (allowed : (s.labs t).here ≠ .allowSignal)
    (after : next ≠ .allowSignal) (u : Lab) :
    ((s.goto t next).labs u).allowed ↔ ((s.goto t next).labs u).here ≠ .allowSignal := by
  rcases eq_or_ne u t with rfl | different
  · simpa [State.goto, after] using (inv.allowed u).mpr allowed
  · simpa [State.goto, different] using inv.allowed u

theorem pending_goto {next : LabAt} (inv : Inv mode s) (u : Lab) :
    ((s.goto t next).labs u).pending → ((s.goto t next).labs u).allowed := by
  rcases eq_or_ne u t with rfl | different
  · simpa [State.goto] using inv.pending u
  · simpa [State.goto, different] using inv.pending u

theorem goto_inv {next : LabAt} (inv : Inv mode s) (allowed : (s.labs t).here ≠ .allowSignal)
    (after : next ≠ .allowSignal) (same : ∀ m, next.holds t m ↔ (s.labs t).here.holds t m)
    (grips : t = .aa → next.grips → (s.labs t).here.grips) : Inv mode (s.goto t next) where
  allowed := inv.allowed_goto allowed after
  pending := inv.pending_goto
  holder m u held := by
    have before := inv.holder m u held
    rcases eq_or_ne u t with rfl | different
    · simpa [State.goto, same] using before
    · simpa [State.goto, different] using before
  owned m u started holds recursive := by
    rcases eq_or_ne u t with rfl | different
    · simp only [State.goto, Function.update_self] at holds recursive
      exact inv.owned m u started ((same m).mp holds) fun aa => grips aa (recursive aa)
    · simp only [State.goto, Function.update_of_ne different] at holds recursive
      exact inv.owned m u started holds recursive

theorem allow_inv (inv : Inv mode s) (here : (s.labs t).here = .allowSignal) :
    Inv mode ((s.allowSignal t).goto t .lockFirst) where
  allowed u := by
    rcases eq_or_ne u t with rfl | different
    · simp [State.goto, State.allowSignal]
    · simpa [State.goto, State.allowSignal, different] using inv.allowed u
  pending u := by
    rcases eq_or_ne u t with rfl | different
    · simp [State.goto, State.allowSignal]
    · simpa [State.goto, State.allowSignal, different] using inv.pending u
  holder m u held := by
    have before := inv.holder m u held
    rcases eq_or_ne u t with rfl | different
    · simp [here, LabAt.holds] at before
    · simpa [State.goto, State.allowSignal, different] using before
  owned m u started holds recursive := by
    rcases eq_or_ne u t with rfl | different
    · simp [State.goto, LabAt.holds] at holds
    · simp only [State.goto, State.allowSignal, Function.update_of_ne different] at holds recursive
      exact inv.owned m u started holds recursive

theorem lock_inv {next : LabAt} (inv : Inv mode s) (started : mode.starts t)
    (allowed : (s.labs t).here ≠ .allowSignal) (free : s.owner m = none) (after : next ≠ .allowSignal)
    (new : ∀ m', next.holds t m' ↔ m' = m ∨ (s.labs t).here.holds t m')
    (grips : t = .aa → ∀ m', next.grips → next.holds t m' → m' = m) :
    Inv mode ((s.lock t m).goto t next) where
  allowed := inv.allowed_goto allowed after
  pending := inv.pending_goto
  holder m' u held := by
    rcases eq_or_ne m' m with rfl | elsewhere
    · obtain rfl : t = u := by simpa [State.goto, State.lock] using held
      simpa [State.goto, State.lock, new] using started
    · have before := inv.holder m' u (by simpa [State.goto, State.lock, elsewhere] using held)
      rcases eq_or_ne u t with rfl | different
      · simpa [State.goto, State.lock, new, elsewhere] using before
      · simpa [State.goto, State.lock, different] using before
  owned m' u started' holds recursive := by
    rcases eq_or_ne u t with rfl | different
    · simp only [State.goto, Function.update_self] at holds recursive
      rcases eq_or_ne m' m with rfl | elsewhere
      · simp [State.goto, State.lock]
      · have before := ((new m').mp holds).resolve_left elsewhere
        have owned := inv.owned m' u started before fun aa =>
          absurd (grips aa m' (recursive aa) holds) elsewhere
        simpa [State.goto, State.lock, elsewhere] using owned
    · simp only [State.goto, State.lock, Function.update_of_ne different] at holds recursive
      have owned := inv.owned m' u started' holds recursive
      have elsewhere : m' ≠ m := by
        rintro rfl
        rw [free] at owned
        contradiction
      simpa [State.goto, State.lock, elsewhere] using owned

theorem unlock_inv {next : LabAt} (inv : Inv mode s) (started : mode.starts t)
    (held : (s.labs t).here.holds t m) (after : next ≠ .allowSignal) (loose : ¬ next.grips)
    (rest : ∀ m', m' ≠ m → (s.labs t).here.holds t m' → next.holds t m')
    (kept : ∀ m', next.holds t m' → (s.labs t).here.holds t m' ∧ (t ≠ .aa → m' ≠ m)) :
    Inv mode ((s.unlock m).goto t next) where
  allowed := by
    have allowed : (s.labs t).here ≠ .allowSignal := by
      intro here
      simp [here, LabAt.holds] at held
    exact inv.allowed_goto allowed after
  pending := inv.pending_goto
  holder m' u owns := by
    rcases eq_or_ne m' m with rfl | elsewhere
    · simp [State.goto, State.unlock] at owns
    · have before := inv.holder m' u (by simpa [State.goto, State.unlock, elsewhere] using owns)
      rcases eq_or_ne u t with rfl | different
      · simpa [State.goto, State.unlock] using ⟨before.1, rest m' elsewhere before.2⟩
      · simpa [State.goto, State.unlock, different] using before
  owned m' u started' holds recursive := by
    rcases eq_or_ne u t with rfl | different
    · simp only [State.goto, Function.update_self] at holds recursive
      have other : u ≠ .aa := fun aa => loose (recursive aa)
      obtain ⟨before, elsewhere⟩ := kept m' holds
      have owned := inv.owned m' u started before fun aa => absurd aa other
      simpa [State.goto, State.unlock, elsewhere other] using owned
    · simp only [State.goto, State.unlock, Function.update_of_ne different] at holds recursive
      have owned := inv.owned m' u started' holds recursive
      have other := Mode.alone started started' different
      have owner := inv.owned m t started held fun aa => absurd aa other
      have elsewhere : m' ≠ m := by
        rintro rfl
        exact different (Option.some.inj (owned.symm.trans owner))
      simpa [State.goto, State.unlock, elsewhere] using owned

theorem sendSig_inv (inv : Inv mode s) : Inv mode (s.sendSig t) := by
  unfold State.sendSig
  split
  case isFalse => exact inv
  case isTrue allowed =>
    have same : ∀ u, ((Function.update s.labs t { s.labs t with pending := true }) u).here =
        (s.labs u).here := by
      intro u
      rcases eq_or_ne u t with rfl | different
      · simp
      · simp [different]
    constructor
    · intro u
      rw [same, ← inv.allowed]
      rcases eq_or_ne u t with rfl | different
      · simp
      · simp [different]
    · intro u pending
      rcases eq_or_ne u t with rfl | different
      · simpa using allowed
      · simp only [Function.update_of_ne different] at pending ⊢
        exact inv.pending u pending
    · intro m' u
      rw [same]
      exact inv.holder m' u
    · intro m' u
      rw [same]
      exact inv.owned m' u

theorem move_inv (inv : Inv mode s) (started : mode.starts t) (moved : Move pretends t s s') :
    Inv mode s' := by
  cases moved with
  | allowSignal here => exact inv.allow_inv here
  | lockFirst here free =>
      refine inv.lock_inv started ?_ free ?_ ?_ ?_
      all_goals cases t <;> simp [here, Lab.afterFirst, LabAt.holds]
  | msleep here other => exact inv.goto_inv (by simp [here]) (by simp) (by simp [here, LabAt.holds]) (by simp [other])
  | wake here other due => exact inv.goto_inv (by simp [here]) (by simp) (by simp [here, LabAt.holds]) (by simp [other])
  | lockSecond here free =>
      refine inv.lock_inv started ?_ free ?_ ?_ ?_
      all_goals simp [here, LabAt.holds, LabAt.grips, or_comm]
  | @interrupted holder here held pending =>
      have holds := (inv.holder _ _ held).2
      have same : ∀ m, (afterSignal pretends t holder).holds t m ↔ (s.labs t).here.holds t m := by
        intro m
        unfold afterSignal
        split
        case isTrue told =>
          rw [told.2, here] at holds
          rw [here]
          simp only [LabAt.holds] at holds ⊢
          rw [holds, or_self]
        case isFalse =>
          rw [here]
          rfl
      refine inv.goto_inv (by simp [here]) ?_ same ?_
      all_goals
        unfold afterSignal
        split
      all_goals simp [LabAt.grips]
  | unlockSecond here =>
      have apart : t ≠ .aa → t.first ≠ t.second := by cases t <;> decide
      refine inv.unlock_inv started ?_ ?_ ?_ ?_ ?_
      · rw [here]
        exact Or.inr rfl
      · simp
      · exact not_false
      · rw [here]
        exact fun m' elsewhere holds => holds.resolve_right elsewhere
      · rw [here]
        rintro m' rfl
        exact ⟨Or.inl rfl, apart⟩
  | unlockFirst here =>
      refine inv.unlock_inv started ?_ ?_ ?_ ?_ ?_
      all_goals simp [here, LabAt.holds, LabAt.grips]
  | waitStop here => exact inv

end Inv

theorem watchdogFn_inv (inv : Inv mode s) (fired : watchdogFn mode escapeMs s = some s') :
    Inv mode s' := by
  have kill : ∀ t, Inv mode (if mode.starts t then s.sendSig t else s) := by
    intro t
    split
    · exact inv.sendSig_inv
    · exact inv
  simp only [watchdogFn] at fired
  split at fired
  case h_2 =>
    obtain ⟨-, fired⟩ := Option.ite_none_right_eq_some.mp fired
    cases fired
    exact ⟨inv.allowed, inv.pending, inv.holder, inv.owned⟩
  all_goals cases fired
  case h_1 => exact ⟨inv.allowed, inv.pending, inv.holder, inv.owned⟩
  case h_3 => exact ⟨(kill .ab).allowed, (kill .ab).pending, (kill .ab).holder, (kill .ab).owned⟩
  case h_4 => exact ⟨(kill .ba).allowed, (kill .ba).pending, (kill .ba).holder, (kill .ba).owned⟩
  case h_5 => exact ⟨(kill .aa).allowed, (kill .aa).pending, (kill .aa).holder, (kill .aa).owned⟩
  case h_6 => exact inv

theorem step_lab (fired : Fires (step mode escapeMs pretends) s (.lab t) s') :
    mode.starts t ∧ Move pretends t s s' := by
  obtain ⟨started, moved⟩ := Option.ite_none_right_eq_some.mp fired
  exact ⟨started, labFn_eq_some.mp moved⟩

theorem inv_step {event : Event} (inv : Inv mode s)
    (fired : Fires (step mode escapeMs pretends) s event s') : Inv mode s' := by
  cases event with
  | lab t =>
      obtain ⟨started, moved⟩ := step_lab fired
      exact inv.move_inv started moved
  | watchdog => exact watchdogFn_inv inv fired
  | pass ms =>
      cases fired
      exact ⟨inv.allowed, inv.pending, inv.holder, inv.owned⟩

theorem inv_of_run {events : List Event} (inv : Inv mode s)
    (run : Run (Fires (step mode escapeMs pretends)) s events s') : Inv mode s' :=
  run.invariant (Inv mode) inv fun _ _ _ => inv_step

end LinuxInterview.DlLab
