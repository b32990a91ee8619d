import LinuxInterview.Lockup.Watchdog

/-!
# The kick of the watchdog thread

The loop of `wd_thread_fn` statement by statement, under the timer handler that may fire between any
two of them.
-/

namespace LinuxInterview.Lockup
open Library

inductive ThreadAt
  | shouldStop
  | setInterruptible
  | testKick
  | testStop
  | schedule
  | asleep
  | setRunning
  | clearKick
  | touch
  | returned
  deriving DecidableEq, Repr

def ThreadAt.toTouch : ThreadAt → Nat
  | .shouldStop => 6
  | .setInterruptible => 5
  | .testKick => 4
  | .testStop => 5
  | .schedule => 4
  | .asleep => 4
  | .setRunning => 3
  | .clearKick => 2
  | .touch => 1
  | .returned => 0

/-- `interruptible` is the state of the task, `touches` counts its updates of `touch_ts`. -/
structure WdThread where
  watchdog : Watchdog
  threadAt : ThreadAt
  interruptible : Bool
  stopping : Bool
  touches : Nat

inductive KickEvent
  | timer (c : Nat) (now : UInt64)
  | thread (now : UInt64)
  | elsewhere (c : Nat) (now : UInt64)
  | kthreadStop
  deriving DecidableEq, Repr

def KickEvent.ofThread : KickEvent → Bool
  | .thread _ => true
  | _ => false

namespace WdThread

def wake (s : WdThread) : WdThread := { s with
  interruptible := false
  threadAt := if s.threadAt = .asleep then .setRunning else s.threadAt }

def timer (mask : CpuMask) (cpu c : Nat) (now : UInt64) (s : WdThread) : WdThread :=
  let kicks := s.watchdog.kickPending c = false ∧ s.watchdog.wdThread c
  let s := { s with watchdog := s.watchdog.wdTimerFn mask c now }
  if kicks ∧ c = cpu then s.wake else s

def wdThreadFn (cpu : Nat) (now : UInt64) (s : WdThread) : Option WdThread :=
  match s.threadAt with
  | .shouldStop => some { s with threadAt := if s.stopping then .returned else .setInterruptible }
  | .setInterruptible => some { s with interruptible := true, threadAt := .testKick }
  | .testKick => some { s with
      threadAt := if s.watchdog.kickPending cpu then .setRunning else .testStop }
  | .testStop => some { s with threadAt := if s.stopping then .setRunning else .schedule }
  | .schedule => some { s with threadAt := if s.interruptible then .asleep else .setRunning }
  | .setRunning => some { s with interruptible := false, threadAt := .clearKick }
  | .clearKick => some { s with
      watchdog := { s.watchdog with
        kickPending := Function.update s.watchdog.kickPending cpu false }
      threadAt := .touch }
  | .touch => some { s with
      watchdog := { s.watchdog with touchTs := Function.update s.watchdog.touchTs cpu now }
      touches := s.touches + 1
      threadAt := .shouldStop }
  | .asleep | .returned => none

/-- `wd_stop` has cancelled every timer before it stops a thread. -/
def step (mask : CpuMask) (cpu : Nat) (s : WdThread) : KickEvent → Option WdThread
  | .timer c now => if s.stopping then none else some (s.timer mask cpu c now)
  | .thread now => s.wdThreadFn cpu now
  | .elsewhere c now =>
      if c = cpu then none else some { s with watchdog := s.watchdog.wdThreadFn c now }
  | .kthreadStop => some { s with
      watchdog := { s.watchdog with wdThread := Function.update s.watchdog.wdThread cpu false }
      stopping := true }.wake

/-- The thread is about to enter its loop; an earlier session may have left a kick. -/
structure Started (cpu : Nat) (s : WdThread) : Prop where
  threadAt : s.threadAt = .shouldStop
  interruptible : s.interruptible = false
  stopping : s.stopping = false
  wdThread : s.watchdog.wdThread cpu = true

/-! ## No kick is lost -/

variable {mask : CpuMask} {cpu : Nat} {s s' : WdThread} {event : KickEvent}

theorem wake_threadAt_ne (s : WdThread) : s.wake.threadAt ≠ .asleep := by
  unfold wake
  simp only
  split
  · simp
  · assumption

theorem timer_watchdog (c : Nat) (now : UInt64) (s : WdThread) :
    (s.timer mask cpu c now).watchdog = s.watchdog.wdTimerFn mask c now := by
  unfold timer
  simp only
  split <;> rfl

theorem timer_touches (c : Nat) (now : UInt64) (s : WdThread) :
    (s.timer mask cpu c now).touches = s.touches := by
  unfold timer
  simp only
  split <;> rfl

theorem timer_cases (mask : CpuMask) (cpu c : Nat) (now : UInt64) (s : WdThread) :
    (s.timer mask cpu c now).watchdog.kickPending cpu = true ∧
        (s.timer mask cpu c now).threadAt = s.wake.threadAt ∧
        (s.timer mask cpu c now).interruptible = false ∨
      (s.timer mask cpu c now).watchdog.kickPending cpu = s.watchdog.kickPending cpu ∧
        (s.timer mask cpu c now).threadAt = s.threadAt ∧
        (s.timer mask cpu c now).interruptible = s.interruptible := by
  obtain ⟨_, _, _, _, _, changes⟩ := Watchdog.wdTimerFn_changes mask c now s.watchdog
  rw [timer_watchdog, changes]
  unfold timer Watchdog.kickThread
  simp only
  by_cases kicks : s.watchdog.kickPending c = false ∧ s.watchdog.wdThread c = true
  · by_cases here : c = cpu
    · subst here
      left
      rw [if_pos kicks, if_pos ⟨kicks, rfl⟩]
      exact ⟨Function.update_self _ _ _, rfl, rfl⟩
    · right
      rw [if_pos kicks, if_neg fun both => here both.2]
      exact ⟨Function.update_of_ne (Ne.symm here) _ _, rfl, rfl⟩
  · right
    rw [if_neg kicks, if_neg fun both => kicks both.1]
    exact ⟨rfl, rfl, rfl⟩

theorem kickPending_elsewhere {c : Nat} (other : c ≠ cpu) (now : UInt64) (w : Watchdog) :
    (w.wdThreadFn c now).kickPending cpu = w.kickPending cpu :=
  Function.update_of_ne (Ne.symm other) _ _

theorem wdThreadFn_stopping {now : UInt64} (action : s.wdThreadFn cpu now = some s') :
    s'.stopping = s.stopping := by
  unfold wdThreadFn at action
  split at action
  all_goals cases action
  all_goals rfl

/-- A thread that may still fall asleep has been woken if a kick is pending. -/
structure Kickable (cpu : Nat) (s : WdThread) : Prop where
  asleep : s.threadAt = .asleep → s.watchdog.kickPending cpu = false
  falling : s.threadAt = .testStop ∨ s.threadAt = .schedule →
    s.watchdog.kickPending cpu = true → s.interruptible = false
  returned : s.threadAt = .returned → s.stopping = true
  wdThread : s.stopping = false → s.watchdog.wdThread cpu = true

theorem timer_stopping (c : Nat) (now : UInt64) (s : WdThread) :
    (s.timer mask cpu c now).stopping = s.stopping := by
  unfold timer
  simp only
  split <;> rfl

theorem wake_threadAt (awake : s.threadAt ≠ .asleep) : s.wake.threadAt = s.threadAt := if_neg awake

theorem Kickable.timer (inv : Kickable cpu s) (mask : CpuMask) (c : Nat) (now : UInt64) :
    Kickable cpu (s.timer mask cpu c now) := by
  have wdThread : (s.timer mask cpu c now).stopping = false →
      (s.timer mask cpu c now).watchdog.wdThread cpu = true := by
    obtain ⟨_, _, _, _, _, changes⟩ := Watchdog.wdTimerFn_changes mask c now s.watchdog
    rw [timer_stopping, timer_watchdog, changes]
    exact inv.wdThread
  rcases timer_cases mask cpu c now s with ⟨_, threadAt, woken⟩ | ⟨kick, threadAt, task⟩
  · refine ⟨fun asleep => absurd (threadAt ▸ asleep) (wake_threadAt_ne s), fun _ _ => woken, ?_,
      wdThread⟩
    intro returned
    rw [timer_stopping]
    by_cases asleep : s.threadAt = .asleep
    · rw [threadAt, wake, asleep] at returned
      simp at returned
    · exact inv.returned (by rw [← wake_threadAt asleep, ← threadAt, returned])
  · exact ⟨fun asleep => kick ▸ inv.asleep (threadAt ▸ asleep),
      fun place pending => task ▸ inv.falling (threadAt ▸ place) (kick ▸ pending),
      fun returned => (timer_stopping c now s).trans (inv.returned (threadAt ▸ returned)), wdThread⟩

theorem Kickable.thread (inv : Kickable cpu s) {now : UInt64}
    (action : s.wdThreadFn cpu now = some s') : Kickable cpu s' := by
  obtain ⟨asleep, falling, _, wdThread⟩ := inv
  unfold wdThreadFn at action
  cases threadAt : s.threadAt
  all_goals
    simp only [threadAt, Option.some.injEq, reduceCtorEq] at action
    try cases action
  case shouldStop =>
    cases stopping : s.stopping
    · exact ⟨by simp, by simp, by simp, fun _ => wdThread stopping⟩
    · exact ⟨by simp, by simp, fun _ => rfl, by simp⟩
  case testKick =>
    cases kick : s.watchdog.kickPending cpu
    · exact ⟨by simp, by simp [kick], by simp, wdThread⟩
    · exact ⟨by simp, by simp, by simp, wdThread⟩
  case testStop =>
    cases stopping : s.stopping
    · exact ⟨by simp, fun _ => falling (Or.inl threadAt), by simp, fun _ => wdThread stopping⟩
    · exact ⟨by simp, by simp, by simp, by simp⟩
  case schedule =>
    have woken := falling (Or.inr threadAt)
    cases task : s.interruptible
    · exact ⟨by simp, by simp, by simp, wdThread⟩
    · refine ⟨fun _ => ?_, by simp, by simp, wdThread⟩
      simp only
      by_contra pending
      have running := woken (by simpa using pending)
      rw [task] at running
      contradiction
  all_goals exact ⟨by simp, by simp, by simp, wdThread⟩

theorem Kickable.step (inv : Kickable cpu s) (action : s.step mask cpu event = some s') :
    Kickable cpu s' := by
  cases event with
  | timer c now =>
      simp only [WdThread.step] at action
      split at action
      · cases action
      · cases action
        exact inv.timer mask c now
  | thread now => exact inv.thread action
  | elsewhere c now =>
      simp only [WdThread.step] at action
      split at action
      · cases action
      · rename_i other
        cases action
        have kick := kickPending_elsewhere other now s.watchdog
        exact ⟨fun asleep => kick.trans (inv.asleep asleep),
          fun place pending => inv.falling place (kick ▸ pending), inv.returned, inv.wdThread⟩
  | kthreadStop =>
      cases action
      exact ⟨fun asleep => absurd asleep (wake_threadAt_ne _), fun _ _ => rfl, fun _ => rfl,
        by simp [wake]⟩

/-! ## Every kick is served -/

/-- Either the kick is pending or the thread has cleared it and is about to touch. -/
def Owes (cpu : Nat) (s : WdThread) : Prop :=
  s.watchdog.kickPending cpu = true ∨ s.threadAt = .touch

theorem Owes.timer (owes : Owes cpu s) (c : Nat) (now : UInt64) : Owes cpu (s.timer mask cpu c now) := by
  rcases timer_cases mask cpu c now s with ⟨kick, _, _⟩ | ⟨kick, threadAt, _⟩
  · exact Or.inl kick
  · rcases owes with pending | touching
    · exact Or.inl (kick.trans pending)
    · exact Or.inr (threadAt.trans touching)

theorem Owes.awake (owes : Owes cpu s) (kickable : Kickable cpu s) : s.threadAt ≠ .asleep := by
  intro asleep
  rcases owes with pending | touching
  · rw [kickable.asleep asleep] at pending
    contradiction
  · rw [asleep] at touching
    contradiction

theorem Owes.thread (owes : Owes cpu s) (kickable : Kickable cpu s) {now : UInt64}
    (action : s.wdThreadFn cpu now = some s') :
    s.touches < s'.touches ∨
      s'.touches = s.touches ∧ Owes cpu s' ∧ s'.threadAt.toTouch < s.threadAt.toTouch := by
  have pending : s.threadAt ≠ .touch → s.watchdog.kickPending cpu = true :=
    fun other => owes.resolve_right other
  unfold wdThreadFn at action
  cases threadAt : s.threadAt
  all_goals
    simp only [threadAt, Option.some.injEq, reduceCtorEq] at action
    try cases action
  case touch =>
    left
    exact Nat.lt_succ_self _
  all_goals
    right
    have kick := pending (by simp [threadAt])
  case shouldStop =>
    refine ⟨rfl, Or.inl kick, ?_⟩
    simp only
    split
    all_goals decide
  case testKick =>
    refine ⟨rfl, Or.inl kick, ?_⟩
    simp [kick, ThreadAt.toTouch]
  case testStop =>
    refine ⟨rfl, Or.inl kick, ?_⟩
    simp only
    split
    all_goals decide
  case schedule =>
    have running := kickable.falling (Or.inr threadAt) kick
    refine ⟨rfl, Or.inl kick, ?_⟩
    simp [running, ThreadAt.toTouch]
  case clearKick => exact ⟨rfl, Or.inr rfl, by simp [ThreadAt.toTouch]⟩
  all_goals exact ⟨rfl, Or.inl kick, by simp [ThreadAt.toTouch]⟩

/-- Since the kick in `kicked`: no touch yet, one owed, and near. -/
structure Due (cpu : Nat) (kicked : WdThread) (events : List KickEvent) (s : WdThread) : Prop where
  touches : s.touches = kicked.touches
  owes : Owes cpu s
  near : .kthreadStop ∉ events → s.stopping = false ∧
    events.countP KickEvent.ofThread + s.threadAt.toTouch ≤ 6

theorem Due.step {kicked : WdThread} {events : List KickEvent} (due : Due cpu kicked events s)
    (kickable : Kickable cpu s) (action : s.step mask cpu event = some s') :
    kicked.touches < s'.touches ∨ Due cpu kicked (events ++ [event]) s' := by
  have awake := due.owes.awake kickable
  cases event with
  | timer c now =>
      simp only [WdThread.step] at action
      split at action
      · cases action
      · cases action
        right
        refine ⟨(timer_touches c now s).trans due.touches, due.owes.timer c now, fun calm => ?_⟩
        have near := due.near (by simpa using calm)
        have threadAt : (s.timer mask cpu c now).threadAt = s.threadAt := by
          rcases timer_cases mask cpu c now s with ⟨_, woken, _⟩ | ⟨_, same, _⟩
          · exact woken.trans (wake_threadAt awake)
          · exact same
        rw [timer_stopping, threadAt, List.countP_append]
        exact near
  | thread now =>
      rcases due.owes.thread kickable action with touched | ⟨same, owes, nearer⟩
      · left
        rw [← due.touches]
        exact touched
      · right
        refine ⟨same.trans due.touches, owes, fun calm => ?_⟩
        obtain ⟨going, near⟩ := due.near (by simpa using calm)
        refine ⟨(wdThreadFn_stopping action).trans going, ?_⟩
        rw [List.countP_append, List.countP_singleton, KickEvent.ofThread, if_pos rfl]
        omega
  | elsewhere c now =>
      simp only [WdThread.step] at action
      split at action
      · cases action
      · rename_i other
        cases action
        right
        refine ⟨due.touches, ?_, fun calm => ?_⟩
        · exact due.owes.imp_left (kickPending_elsewhere other now s.watchdog).trans
        · rw [List.countP_append]
          exact due.near (by simpa using calm)
  | kthreadStop =>
      cases action
      right
      refine ⟨due.touches, ?_, fun calm => absurd (by simp) calm⟩
      exact due.owes.imp_right (wake_threadAt awake).trans

/-! ## The whole loop -/

theorem wdThreadFn_touchTs {now : UInt64} (action : s.wdThreadFn cpu now = some s') :
    s'.touches = s.touches ∧ s'.watchdog.touchTs cpu = s.watchdog.touchTs cpu ∨
      s'.touches = s.touches + 1 ∧ s'.watchdog.touchTs cpu = now := by
  unfold wdThreadFn at action
  cases threadAt : s.threadAt
  all_goals
    simp only [threadAt, Option.some.injEq, reduceCtorEq] at action
    try cases action
  case touch => exact .inr ⟨rfl, Function.update_self _ _ _⟩
  all_goals exact .inl ⟨rfl, rfl⟩

/-- Only the thread's own update writes `touch_ts` of its CPU. -/
theorem step_touchTs (action : s.step mask cpu event = some s') :
    s'.touches = s.touches ∧ s'.watchdog.touchTs cpu = s.watchdog.touchTs cpu ∨
      s'.touches = s.touches + 1 ∧ ∃ now, event = .thread now ∧ s'.watchdog.touchTs cpu = now := by
  cases event with
  | timer c now =>
      simp only [WdThread.step] at action
      split at action
      · cases action
      · cases action
        left
        obtain ⟨_, _, _, _, _, changes⟩ := Watchdog.wdTimerFn_changes mask c now s.watchdog
        rw [timer_touches, timer_watchdog, changes]
        exact ⟨rfl, rfl⟩
  | thread now =>
      rcases wdThreadFn_touchTs action with same | ⟨more, ts⟩
      · exact .inl same
      · exact .inr ⟨more, now, rfl, ts⟩
  | elsewhere c now =>
      simp only [WdThread.step] at action
      split at action
      · cases action
      · rename_i other
        cases action
        exact .inl ⟨rfl, Function.update_of_ne (Ne.symm other) _ _⟩
  | kthreadStop =>
      cases action
      exact .inl ⟨rfl, rfl⟩

/-- Since the kick in `kicked`, the thread has either not touched or left one of its own times in `touch_ts`. -/
def Stamped (cpu : Nat) (kicked : WdThread) (events : List KickEvent) (s : WdThread) : Prop :=
  s.touches = kicked.touches ∧ s.watchdog.touchTs cpu = kicked.watchdog.touchTs cpu ∨
    kicked.touches < s.touches ∧ ∃ now, .thread now ∈ events ∧ s.watchdog.touchTs cpu = now

theorem Stamped.step {kicked : WdThread} {events : List KickEvent} (stamped : Stamped cpu kicked events s)
    (action : s.step mask cpu event = some s') : Stamped cpu kicked (events ++ [event]) s' := by
  have least : kicked.touches ≤ s.touches := by
    rcases stamped with ⟨same, _⟩ | ⟨more, _⟩
    · exact same.ge
    · exact more.le
  rcases step_touchTs action with ⟨same, ts⟩ | ⟨more, now, rfl, ts⟩
  · rcases stamped with ⟨none, before⟩ | ⟨some, now, member, before⟩
    · exact .inl ⟨same.trans none, ts.trans before⟩
    · exact .inr ⟨same ▸ some, now, List.mem_append_left _ member, ts.trans before⟩
  · exact .inr ⟨more ▸ Nat.lt_succ_of_le least, now, List.mem_append_right _ (List.mem_singleton.mpr rfl), ts⟩

/-- After a handler found no kick pending: the thread touches before it sleeps again, it is never
stuck before, and it needs six of its own steps at most. Once it has touched, `touch_ts` is of one of these steps. -/
structure Served (mask : CpuMask) (cpu : Nat) (kicked : WdThread) (events : List KickEvent)
    (s : WdThread) : Prop where
  beforeSleep : s.threadAt = .asleep → kicked.touches < s.touches
  runs : .kthreadStop ∉ events → s.touches = kicked.touches →
    ∀ now, (s.step mask cpu (.thread now)).isSome
  soon : .kthreadStop ∉ events → 6 ≤ events.countP KickEvent.ofThread → kicked.touches < s.touches
  stamped : Stamped cpu kicked events s

theorem Due.served {kicked : WdThread} {events : List KickEvent} (due : Due cpu kicked events s)
    (kickable : Kickable cpu s) (stamped : Stamped cpu kicked events s) : Served mask cpu kicked events s := by
  have awake := due.owes.awake kickable
  have going : .kthreadStop ∉ events → s.threadAt ≠ .returned := by
    intro calm returned
    have stopping := kickable.returned returned
    rw [(due.near calm).1] at stopping
    contradiction
  refine ⟨fun asleep => absurd asleep awake, fun calm _ now => ?_, fun calm steps => ?_, stamped⟩
  · have running := going calm
    simp only [WdThread.step, wdThreadFn]
    cases threadAt : s.threadAt <;> simp_all
  · have ahead : 1 ≤ s.threadAt.toTouch := by
      have running := going calm
      cases threadAt : s.threadAt <;> simp_all [ThreadAt.toTouch]
    have near := (due.near calm).2
    omega

theorem Started.kickable {start : WdThread} (started : Started cpu start) : Kickable cpu start := by
  obtain ⟨threadAt, _, _, wdThread⟩ := started
  exact ⟨by simp [threadAt], by simp [threadAt], by simp [threadAt], fun _ => wdThread⟩

theorem due_of_kick (kickable : Kickable cpu s) {now : UInt64} {kicked : WdThread}
    (idle : s.watchdog.kickPending cpu = false)
    (handler : s.step mask cpu (.timer cpu now) = some kicked) : Due cpu kicked [] kicked := by
  have next := kickable.timer mask cpu now
  simp only [WdThread.step] at handler
  split at handler
  · cases handler
  · rename_i going
    cases handler
    have pointer := kickable.wdThread (by simpa using going)
    have kick : (s.timer mask cpu cpu now).watchdog.kickPending cpu = true := by
      obtain ⟨_, _, _, _, _, changes⟩ := Watchdog.wdTimerFn_changes mask cpu now s.watchdog
      rw [timer_watchdog, changes]
      simp [Watchdog.kickThread, idle, pointer]
    have running : (s.timer mask cpu cpu now).stopping = false := by
      rw [timer_stopping]
      simpa using going
    refine ⟨rfl, Or.inl kick, fun _ => ⟨running, ?_⟩⟩
    rw [List.countP_nil, Nat.zero_add]
    cases (s.timer mask cpu cpu now).threadAt <;> decide

theorem no_lost_kick {start : WdThread} (started : Started cpu start) {before : List KickEvent}
    (run : Run (Fires (step mask cpu)) start before s) :
    ¬ (s.watchdog.kickPending cpu = true ∧ s.threadAt = .asleep) ∧
      ∀ now kicked, s.watchdog.kickPending cpu = false →
        s.step mask cpu (.timer cpu now) = some kicked →
        ∀ events after, Run (Fires (step mask cpu)) kicked events after →
          Served mask cpu kicked events after := by
  have kickable : Kickable cpu s :=
    run.invariant (Kickable cpu) started.kickable fun _ _ _ inv action => inv.step action
  constructor
  · rintro ⟨pending, asleep⟩
    rw [kickable.asleep asleep] at pending
    contradiction
  · intro now kicked idle handler events after rest
    have since : Kickable cpu after ∧ Stamped cpu kicked events after ∧
        (kicked.touches < after.touches ∨ Due cpu kicked events after) := by
      refine rest.history_invariant
        (fun events after => Kickable cpu after ∧ Stamped cpu kicked events after ∧
          (kicked.touches < after.touches ∨ Due cpu kicked events after))
        ⟨kickable.step handler, .inl ⟨rfl, rfl⟩, Or.inr (due_of_kick kickable idle handler)⟩ ?_
      rintro events before event after _ ⟨kickable, stamped, touched | due⟩ action
      · refine ⟨kickable.step action, stamped.step action, Or.inl ?_⟩
        rcases step_touchTs action with ⟨same, _⟩ | ⟨more, _⟩
        · rwa [same]
        · exact more ▸ touched.trans (Nat.lt_succ_self _)
      · exact ⟨kickable.step action, stamped.step action, due.step kickable action⟩
    obtain ⟨kickable, stamped, touched | due⟩ := since
    · exact ⟨fun _ => touched, fun _ same => absurd touched (by omega), fun _ _ => touched, stamped⟩
    · exact due.served kickable stamped

/-! A kick left by an earlier session is cleared in the first turn; the second turn sleeps. -/

def oneCpu : CpuMask := ⟨1, fun _ => true⟩

def leftKick : WdThread where
  watchdog := { Watchdog.loaded with kickPending := fun _ => true, wdThread := fun _ => true }
  threadAt := .shouldStop
  interruptible := false
  stopping := false
  touches := 0

def twoTurns : List KickEvent := .replicate 11 (.thread 1)

def sleeping : WdThread := (twoTurns.foldlM (step oneCpu 0) leftKick).getD leftKick

def kicked : WdThread := sleeping.timer oneCpu 0 0 2

def touched : WdThread := ((List.replicate 3 (.thread 2)).foldlM (step oneCpu 0) kicked).getD kicked

theorem no_lost_kick_after_sleep :
    (sleeping.threadAt = .asleep ∧ touched.touches = kicked.touches + 1) ∧
      ¬ (sleeping.watchdog.kickPending 0 = true ∧ sleeping.threadAt = .asleep) ∧
        Served oneCpu 0 kicked (.replicate 3 (.thread 2)) touched := by
  have started : Started 0 leftKick := ⟨rfl, rfl, rfl, rfl⟩
  have run : Run (Fires (step oneCpu 0)) leftKick twoTurns sleeping := run_of_foldlM rfl
  obtain ⟨awake, served⟩ := no_lost_kick started run
  exact ⟨by decide, awake, served 2 kicked rfl rfl _ _ (run_of_foldlM rfl)⟩

end WdThread

end LinuxInterview.Lockup
