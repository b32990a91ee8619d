import LinuxInterview.Lockup.Watchdog
import LinuxInterview.Library.Heartbeat
import LinuxInterview.Library.History

/-!
# Hard lockups are reported by the neighbour

Seen by a CPU and its checker alone, a session is a run of a monitor of period three.
-/

namespace LinuxInterview.Lockup
open Library

def Message.reports (n : Nat) : Message → Bool
  | .hardLockup nb _ _ => nb == n
  | _ => false

def hardReports (n : Nat) (dmesg : List Message) : Nat := dmesg.countP (Message.reports n)

def WatchdogEvent.ticks (cpu : Nat) : WatchdogEvent → Bool
  | .timer other _ => other == cpu
  | _ => false

def ticksIn (cpu : Nat) (events : List WatchdogEvent) : Nat := events.countP (WatchdogEvent.ticks cpu)

def signal (n checker : Nat) : WatchdogEvent → Option Signal
  | .timer cpu _ => if cpu = n then some .beat else if cpu = checker then some .tick else none
  | _ => none

structure Watches (mask : CpuMask) (checker n : Nat) : Prop where
  online : n ∈ mask.onlineCpus
  other : checker ≠ n
  unique : ∀ cpu ∈ mask.onlineCpus, mask.nextCpuOf cpu = n ↔ cpu = checker

namespace Watchdog

def view (n checker : Nat) (w : Watchdog) : Monitor where
  beats := w.hrtimerTicks n
  saved := w.hrtimerTicksSaved n
  ticks := w.hrtimerTicks checker
  alarmed := w.hardReported n
  alarms := hardReports n w.dmesg

variable {mask : CpuMask} {n checker cpu : Nat} {w : Watchdog}

/-! ## One step -/

theorem hardReports_append (n : Nat) (dmesg : List Message) (message : Message) :
    hardReports n (dmesg ++ [message]) = hardReports n dmesg + if message.reports n then 1 else 0 := by
  rw [hardReports, List.countP_append, List.countP_singleton]
  rfl

theorem view_kickThread (w : Watchdog) : (w.kickThread cpu).view n checker = w.view n checker := by
  unfold kickThread
  split <;> rfl

theorem view_checkSoftlockup (w : Watchdog) (now : UInt64) (ticks : Nat) :
    (w.checkSoftlockup cpu now ticks).view n checker = w.view n checker := by
  unfold checkSoftlockup
  simp only
  split
  · split
    · rfl
    · simp only [view, hardReports_append, Message.reports, Bool.false_eq_true, if_false, Nat.add_zero]
  · split
    · simp only [view, hardReports_append, Message.reports, Bool.false_eq_true, if_false, Nat.add_zero]
    · rfl

theorem view_checkNeighbour_of_ne (other : mask.nextCpuOf cpu ≠ n) (w : Watchdog) :
    (w.checkNeighbour mask cpu).view n checker = w.view n checker := by
  unfold checkNeighbour
  simp only
  split
  · split
    · split
      · rfl
      · simp [view, hardReports_append, Message.reports, other, Function.update_of_ne other.symm]
    · split
      · simp [view, hardReports_append, Message.reports, Function.update_of_ne other.symm]
      · simp [view, Function.update_of_ne other.symm]
  · rfl

theorem view_checkNeighbour (neighbour : mask.nextCpuOf cpu = n) (online : n < mask.nrCpuIds) (w : Watchdog) :
    (w.checkNeighbour mask cpu).view n checker = (w.view n checker).look := by
  unfold checkNeighbour Monitor.look
  simp only [neighbour, online, if_true]
  by_cases still : w.hrtimerTicksSaved n = w.hrtimerTicks n
  · cases reported : w.hardReported n
    · simp [view, still, reported, hardReports_append, Message.reports]
    · simp [view, still, reported]
  · cases reported : w.hardReported n
    · simp [view, still, reported]
    · simp [view, still, reported, hardReports_append, Message.reports]

def heard (n checker : Nat) (event : WatchdogEvent) (m : Monitor) : Monitor :=
  (signal n checker event).elim m (m.next 3)

def counted (cpu : Nat) (w : Watchdog) : Watchdog :=
  { w with hrtimerTicks := Function.update w.hrtimerTicks cpu (w.hrtimerTicks cpu + 1) }

theorem view_wdTimerFn (mask : CpuMask) (cpu : Nat) (now : UInt64) (w : Watchdog) :
    (w.wdTimerFn mask cpu now).view n checker =
      if (w.hrtimerTicks cpu + 1) % 3 = 0 then ((w.counted cpu).checkNeighbour mask cpu).view n checker
      else (w.counted cpu).view n checker := by
  unfold wdTimerFn
  simp only
  rw [view_checkSoftlockup, view_kickThread, apply_ite (view n checker)]
  rfl

theorem view_wdTimerFn_of_ne (elsewhere : mask.nextCpuOf cpu ≠ n) (now : UInt64) (w : Watchdog) :
    (w.wdTimerFn mask cpu now).view n checker = (w.counted cpu).view n checker := by
  rw [view_wdTimerFn, view_checkNeighbour_of_ne elsewhere, ite_self]

theorem view_timer (watches : Watches mask checker n) (online : cpu ∈ mask.onlineCpus) (now : UInt64)
    (w : Watchdog) : (w.wdTimerFn mask cpu now).view n checker =
      heard n checker (.timer cpu now) (w.view n checker) := by
  have neighbour := watches.unique cpu online
  by_cases itself : cpu = n
  · have elsewhere : mask.nextCpuOf cpu ≠ n :=
      fun looks => watches.other ((neighbour.mp looks).symm.trans itself)
    rw [view_wdTimerFn_of_ne elsewhere, heard, signal, if_pos itself]
    simp [view, counted, itself, Monitor.next, Function.update_of_ne watches.other]
  by_cases checks : cpu = checker
  · rw [view_wdTimerFn, view_checkNeighbour (neighbour.mpr checks)
      (CpuMask.lt_of_mem_onlineCpus watches.online), heard, signal, if_neg itself, if_pos checks]
    simp [view, counted, checks, Monitor.next, Function.update_of_ne watches.other.symm]
  · have elsewhere : mask.nextCpuOf cpu ≠ n := fun looks => checks (neighbour.mp looks)
    rw [view_wdTimerFn_of_ne elsewhere, heard, signal, if_neg itself, if_neg checks]
    simp [view, counted, Function.update_of_ne (Ne.symm itself), Function.update_of_ne (Ne.symm checks)]

theorem wdRunning_wdTimerFn (mask : CpuMask) (cpu : Nat) (now : UInt64) (w : Watchdog) :
    (w.wdTimerFn mask cpu now).wdRunning = w.wdRunning := by
  obtain ⟨_, _, _, _, _, changes⟩ := wdTimerFn_changes mask cpu now w
  rw [changes]

theorem view_next (watches : Watches mask checker n) {event : WatchdogEvent} (permitted : w.Permits mask event)
    (running : w.wdRunning = true) :
    (w.next mask event).view n checker = heard n checker event (w.view n checker) ∧
      (w.next mask event).wdRunning = true := by
  cases event with
  | timer cpu now =>
      exact ⟨view_timer watches permitted now w, (wdRunning_wdTimerFn mask cpu now w).trans running⟩
  | thread cpu now => exact ⟨rfl, running⟩
  | thresh secs => exact ⟨rfl, running⟩
  | wdOn created now =>
      have unchanged : w.next mask (.wdOn created now) = w := if_pos running
      rw [unchanged]
      exact ⟨rfl, running⟩

/-! ## Sessions -/

theorem startThread_of_clear (created : Nat → Bool) (clear : w.hardReported = fun _ => false) :
    (w.startThread created cpu).hardReported = (fun _ => false) ∧
      (w.startThread created cpu).view n checker = w.view n checker := by
  have still : Function.update w.hardReported cpu false = fun _ => false := by
    rw [clear]
    exact Function.update_eq_self cpu _
  unfold startThread
  split
  · refine ⟨still, ?_⟩
    rw [view, view, still, clear]
  · exact ⟨clear, rfl⟩

theorem foldl_startThread (created : Nat → Bool) (cpus : List Nat) (w : Watchdog)
    (clear : w.hardReported = fun _ => false) :
    (cpus.foldl (startThread created) w).view n checker = w.view n checker := by
  induction cpus generalizing w with
  | nil => rfl
  | cons cpu cpus ih =>
      obtain ⟨still, view⟩ := startThread_of_clear created clear
      exact (ih _ still).trans view

theorem foldl_startHrtimerLocal (now : Nat → UInt64) (cpus : List Nat) (w : Watchdog) :
    (cpus.foldl (startHrtimerLocal now) w).view n checker = w.view n checker := by
  induction cpus generalizing w with
  | nil => rfl
  | cons cpu cpus ih => exact ih (w.startHrtimerLocal now cpu)

theorem view_firstSession (mask : CpuMask) (secs : Int32) (created : Nat → Bool) (now : Nat → UInt64) :
    (firstSession mask secs created now).view n checker = Monitor.init ∧
      (firstSession mask secs created now).wdRunning = true := by
  refine ⟨?_, rfl⟩
  calc (firstSession mask secs created now).view n checker
      = (mask.onlineCpus.foldl (startHrtimerLocal now) (mask.onlineCpus.foldl (startThread created)
          { loaded with thresh := secs })).view n checker := rfl
    _ = ({ loaded with thresh := secs } : Watchdog).view n checker := by
        rw [foldl_startHrtimerLocal, foldl_startThread _ _ _ rfl]
    _ = Monitor.init := rfl

theorem view_run (watches : Watches mask checker n) (running : w.wdRunning = true)
    {events : List WatchdogEvent} {w' : Watchdog} (run : Session mask w events w') :
    w'.view n checker = (w.view n checker).watch 3 (events.filterMap (signal n checker)) ∧
      w'.wdRunning = true := by
  induction run with
  | nil => exact ⟨rfl, running⟩
  | @snoc events before after event _ action ih =>
      obtain ⟨permitted, rfl⟩ := action
      obtain ⟨view, running⟩ := view_next watches permitted ih.2
      refine ⟨?_, running⟩
      rw [view, ih.1, List.filterMap_append, heard]
      cases found : signal n checker event with
      | none => simp [found]
      | some signal => simp [found, Monitor.watch]

end Watchdog

/-! ## What is reported -/

section

variable {mask : CpuMask} {n checker : Nat} {events : List WatchdogEvent}

theorem ticks_iff {event : WatchdogEvent} {cpu : Nat} :
    event.ticks cpu = true ↔ ∃ now, event = .timer cpu now := by
  cases event <;> simp [WatchdogEvent.ticks]

theorem signal_eq_beat_iff {event : WatchdogEvent} :
    signal n checker event = some .beat ↔ event.ticks n = true := by
  cases event with
  | timer cpu now =>
      by_cases itself : cpu = n
      · simp [signal, WatchdogEvent.ticks, itself]
      · rw [signal, if_neg itself]
        split <;> simp [WatchdogEvent.ticks, itself]
  | thread cpu now => simp [signal, WatchdogEvent.ticks]
  | thresh secs => simp [signal, WatchdogEvent.ticks]
  | wdOn created now => simp [signal, WatchdogEvent.ticks]

theorem signal_eq_tick_iff (other : checker ≠ n) {event : WatchdogEvent} :
    signal n checker event = some .tick ↔ event.ticks checker = true := by
  cases event with
  | timer cpu now =>
      by_cases itself : cpu = n
      · simp [signal, WatchdogEvent.ticks, itself, other.symm]
      · simp [signal, WatchdogEvent.ticks, itself]
  | thread cpu now => simp [signal, WatchdogEvent.ticks]
  | thresh secs => simp [signal, WatchdogEvent.ticks]
  | wdOn created now => simp [signal, WatchdogEvent.ticks]

theorem count_beats (n checker : Nat) (events : List WatchdogEvent) :
    (events.filterMap (signal n checker)).count .beat = ticksIn n events := by
  rw [List.count_filterMap]
  apply List.countP_congr
  intro event _
  rw [beq_iff_eq]
  exact signal_eq_beat_iff

theorem count_ticks (other : checker ≠ n) (events : List WatchdogEvent) :
    (events.filterMap (signal n checker)).count .tick = ticksIn checker events := by
  rw [List.count_filterMap]
  apply List.countP_congr
  intro event _
  rw [beq_iff_eq]
  exact signal_eq_tick_iff other

theorem ticksIn_append (cpu : Nat) (before after : List WatchdogEvent) :
    ticksIn cpu (before ++ after) = ticksIn cpu before + ticksIn cpu after := List.countP_append

/-- The start, or a moment at which the CPU has just checked its neighbour. -/
def AfterCheck (cpu : Nat) (events : List WatchdogEvent) : Prop :=
  (events = [] ∨ ∃ earlier now, events = earlier ++ [.timer cpu now]) ∧ 3 ∣ ticksIn cpu events

theorem exists_check_of_look (other : checker ≠ n) {earlier since : List Signal}
    (split : events.filterMap (signal n checker) = earlier ++ since) (look : Monitor.Look 3 earlier) :
    ∃ before after, events = before ++ after ∧ AfterCheck checker before ∧
      ticksIn n after = since.count .beat ∧ ticksIn checker after = since.count .tick := by
  obtain ⟨before, after, parts, rfl, rfl, ending⟩ := exists_split_of_filterMap split
  obtain ⟨last, whole⟩ := look
  rw [count_ticks other] at whole
  refine ⟨before, after, parts, ⟨?_, whole⟩, (count_beats n checker after).symm, (count_ticks other after).symm⟩
  rcases ending with none | ⟨init, entry, final, rfl, found, heard⟩
  · exact Or.inl none
  · rcases last with nothing | ⟨signals, tick⟩
    · rw [nothing] at found
      cases found
    · rw [tick, List.getLast?_concat] at found
      cases found
      obtain ⟨now, rfl⟩ := ticks_iff.mp ((signal_eq_tick_iff other).mp heard)
      exact Or.inr ⟨init, now, rfl⟩

structure HardLockupDetection (mask : CpuMask) (start : Watchdog) (n checker : Nat) : Prop where
  sound : ∀ {events w event}, Session mask start events w → w.Permits mask event →
    hardReports n w.dmesg < hardReports n (w.next mask event).dmesg →
    (∃ now, event = .timer checker now) ∧ AfterCheck checker (events ++ [event]) ∧
      ∃ earlier since, events = earlier ++ since ∧ AfterCheck checker earlier ∧
        ticksIn n since = 0 ∧ ticksIn checker since = 2
  once : ∀ {before w between w'}, Session mask start before w → Session mask w between w' →
    ticksIn n between = 0 → hardReports n w'.dmesg ≤ hardReports n w.dmesg + 1
  complete : ∀ {before w after w'}, Session mask start before w → Session mask w after w' →
    (before = [] ∨ ∃ earlier now, before = earlier ++ [.timer n now]) →
    ticksIn n after = 0 → 6 ≤ ticksIn checker after →
    w'.hardReported n = true ∧ hardReports n w.dmesg < hardReports n w'.dmesg

theorem Watches.detects (watches : Watches mask checker n) {start : Watchdog}
    (fresh : start.view n checker = Monitor.init) (running : start.wdRunning = true) :
    HardLockupDetection mask start n checker where
  sound := by
    intro events w event run permitted report
    obtain ⟨view, alive⟩ := Watchdog.view_run watches running run
    rw [fresh] at view
    have step : (w.next mask event).view n checker = Watchdog.heard n checker event (w.view n checker) :=
      (Watchdog.view_next watches permitted alive).1
    have alarm : (w.view n checker).alarms < ((w.next mask event).view n checker).alarms := report
    rw [step, Watchdog.heard] at alarm
    cases said : signal n checker event with
    | none =>
        rw [said] at alarm
        exact absurd alarm (lt_irrefl _)
    | some signal =>
        rw [said, view] at alarm
        obtain ⟨rfl, earlier, since, split, look, silent, recent⟩ :=
          Monitor.quiet_of_alarm (Nat.succ_pos 2) alarm
        obtain ⟨now, rfl⟩ := ticks_iff.mp ((signal_eq_tick_iff watches.other).mp said)
        obtain ⟨before, after, parts, check, beats, ticks⟩ := exists_check_of_look watches.other split look
        have afterTwo : ticksIn checker after = 2 := ticks.trans (Nat.succ.inj recent)
        have due : 3 ∣ ticksIn checker (events ++ [.timer checker now]) := by
          have one : ticksIn checker [.timer checker now] = 1 := by simp [ticksIn, WatchdogEvent.ticks]
          rw [parts, ticksIn_append, ticksIn_append, afterTwo, one, Nat.add_assoc]
          exact Nat.dvd_add check.2 dvd_rfl
        exact ⟨⟨now, rfl⟩, ⟨Or.inr ⟨events, now, rfl⟩, due⟩, before, after, parts, check,
          beats.trans silent, afterTwo⟩
  once := by
    intro before w between w' first run silent
    obtain ⟨_, alive⟩ := Watchdog.view_run watches running first
    obtain ⟨view, _⟩ := Watchdog.view_run watches alive run
    rw [← count_beats n checker] at silent
    have bound : (w'.view n checker).alarms ≤ (w.view n checker).alarms + 1 := by
      rw [view]
      exact Monitor.alarms_le_of_silent _ silent
    exact bound
  complete := by
    intro before w after w' first run last silent long
    obtain ⟨begun, alive⟩ := Watchdog.view_run watches running first
    obtain ⟨view, _⟩ := Watchdog.view_run watches alive run
    rw [← count_beats n checker] at silent
    rw [← count_ticks watches.other] at long
    have recent : (w.view n checker).Fresh := by
      rw [begun, fresh]
      apply Monitor.fresh_of_start_or_beat
      rcases last with rfl | ⟨earlier, now, rfl⟩
      · exact Or.inl rfl
      · right
        refine ⟨earlier.filterMap (signal n checker), ?_⟩
        simp [signal]
    have alarmed := Monitor.alarmed_of_silent (Nat.succ_pos 2) recent silent long
    rwa [← view] at alarmed

theorem hardReports_offline (several : 2 ≤ mask.onlineCpus.length) (offline : n ∉ mask.onlineCpus)
    {start w : Watchdog} (running : start.wdRunning = true) (run : Session mask start events w) :
    hardReports n w.dmesg = hardReports n start.dmesg ∧ w.wdRunning = true := by
  induction run with
  | nil => exact ⟨rfl, running⟩
  | @snoc events before after event _ action ih =>
      obtain ⟨permitted, rfl⟩ := action
      obtain ⟨same, alive⟩ := ih
      cases event with
      | timer cpu now =>
          have elsewhere : mask.nextCpuOf cpu ≠ n :=
            fun looks => offline (looks ▸ CpuMask.nextCpuOf_mem several permitted)
          have view : (before.wdTimerFn mask cpu now).view n n = (before.counted cpu).view n n :=
            Watchdog.view_wdTimerFn_of_ne elsewhere now before
          exact ⟨(congrArg Monitor.alarms view).trans same,
            (Watchdog.wdRunning_wdTimerFn mask cpu now before).trans alive⟩
      | thread cpu now => exact ⟨same, alive⟩
      | thresh secs => exact ⟨same, alive⟩
      | wdOn created now =>
          have unchanged : before.next mask (.wdOn created now) = before := if_pos alive
          rw [unchanged]
          exact ⟨same, alive⟩

/-- With two CPUs online, every online CPU has one checker, which detects its hard lockups, and
nobody else is ever reported. -/
theorem hard_lockups_detected (several : 2 ≤ mask.onlineCpus.length) (secs : Int32)
    (created : Nat → Bool) (now : Nat → UInt64) (n : Nat) :
    (n ∈ mask.onlineCpus → ∃ checker ∈ mask.onlineCpus,
      (∀ cpu ∈ mask.onlineCpus, mask.nextCpuOf cpu = n ↔ cpu = checker) ∧
        HardLockupDetection mask (Watchdog.firstSession mask secs created now) n checker) ∧
    (n ∉ mask.onlineCpus → ∀ events w,
      Session mask (Watchdog.firstSession mask secs created now) events w → hardReports n w.dmesg = 0) := by
  constructor
  · intro online
    obtain ⟨checker, member, unique⟩ := CpuMask.existsUnique_checker several online
    have other : checker ≠ n := by
      intro itself
      apply CpuMask.nextCpuOf_ne several member
      rw [(unique checker member).mpr rfl, itself]
    obtain ⟨fresh, running⟩ := Watchdog.view_firstSession mask secs created now
    exact ⟨checker, member, unique, Watches.detects ⟨online, other, unique⟩ fresh running⟩
  · intro offline events w run
    obtain ⟨fresh, running⟩ := Watchdog.view_firstSession mask secs created now
    rw [(hardReports_offline several offline running run).1]
    exact congrArg Monitor.alarms (fresh : Watchdog.view n n _ = Monitor.init)

theorem hard_lockups_detected_two :
    let start := Watchdog.firstSession ⟨2, fun _ => true⟩ 5 (fun _ => true) (fun _ => 0)
    let locked := (List.replicate 6 (.timer 0 0)).foldl (Watchdog.next ⟨2, fun _ => true⟩) start
    locked.hardReported 1 = true ∧ hardReports 1 start.dmesg < hardReports 1 locked.dmesg := by
  obtain ⟨checker, _, unique, detection⟩ :=
    (@hard_lockups_detected ⟨2, fun _ => true⟩ (by decide) 5 (fun _ => true) (fun _ => 0) 1).1 (by decide)
  obtain rfl : 0 = checker := (unique 0 (by decide)).mp (by decide)
  exact detection.complete .nil (run_of_permitted (by decide)) (Or.inl rfl) (by decide) (by decide)

end

end LinuxInterview.Lockup
