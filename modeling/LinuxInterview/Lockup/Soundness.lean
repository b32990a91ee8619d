import LinuxInterview.Lockup.SoftLockup
import LinuxInterview.Lockup.Scripts

/-!
# Which reports of a soft lockup are true
-/

namespace LinuxInterview.Lockup
open Library Watchdog

/-- Where the detector runs, every CPU has its thread and the threshold is in range. -/
def Setup.Good (mask : CpuMask) (σ : Setup) : Prop :=
  σ.running → ∀ cpu ∈ mask.onlineCpus, σ.threads cpu ∧ InRange σ.thresh

def Clean (mask : CpuMask) (script : List Write) : Prop :=
  ∀ before, before <+: script → (before.foldl (Setup.next mask) .init).Good mask

namespace LockupLab

variable {mask : CpuMask} {σ : Setup} {s s' : LockupLab} {cpu : Nat} {event : LabEvent}

/-! ## The clock -/

/-- When the thread of the CPU gave its last sign: the later of its start and its last write of `touch_ts`. -/
def lastSign (s : LockupLab) (cpu : Nat) : Nat := max (s.started cpu) ((s.refreshed cpu).getD 0)

structure Dated (s : LockupLab) : Prop where
  sign : ∀ cpu, s.lastSign cpu ≤ s.clock
  touched : ∀ cpu, s.armed cpu → ∃ W, s.watchdog.touchTs cpu = secAt W ∧ W ≤ s.clock ∧ s.lastSign cpu ≤ W

structure Still (s s' : LockupLab) : Prop where
  touchTs : s'.watchdog.touchTs = s.watchdog.touchTs
  started : s'.started = s.started
  refreshed : s'.refreshed = s.refreshed
  clock : s'.clock = s.clock
  armed : ∀ cpu, s'.armed cpu → s.armed cpu

theorem Still.lastSign (still : Still s s') (cpu : Nat) : s'.lastSign cpu = s.lastSign cpu := by
  unfold LockupLab.lastSign
  rw [still.started, still.refreshed]

theorem Dated.of_still (dated : Dated s) (still : Still s s') : Dated s' where
  sign cpu := by
    rw [still.lastSign, still.clock]
    exact dated.sign cpu
  touched cpu armed := by
    rw [still.lastSign, still.clock, still.touchTs]
    exact dated.touched cpu (still.armed cpu armed)

theorem stopKhung_still (s : LockupLab) : Still s s.stopKhung := by
  unfold stopKhung
  split
  all_goals exact ⟨rfl, rfl, rfl, rfl, fun _ => id⟩

theorem afterWdStop_still (s : LockupLab) : Still s s.afterWdStop := by
  unfold afterWdStop
  split
  · exact stopKhung_still s
  · exact ⟨rfl, rfl, rfl, rfl, fun _ => id⟩

theorem wdStop_still (s : LockupLab) : Still s (s.wdStop mask) := by
  unfold wdStop
  split
  · exact ⟨rfl, rfl, rfl, rfl, fun _ => id⟩
  · exact afterWdStop_still s

theorem llWrite_still (w : Write) (s : LockupLab) : Still s (s.llWrite mask w) := by
  unfold llWrite
  split
  case h_1 =>
    unfold wdStart
    split
    all_goals exact ⟨rfl, rfl, rfl, rfl, fun _ => id⟩
  case h_2 => exact wdStop_still s
  case h_4 =>
    unfold khungOn
    simp only
    split
    · split
      all_goals exact ⟨rfl, rfl, rfl, rfl, fun _ => id⟩
    all_goals exact ⟨rfl, rfl, rfl, rfl, fun _ => id⟩
  case h_5 => exact stopKhung_still s
  case h_3 | h_9 => exact ⟨rfl, rfl, rfl, rfl, fun _ => id⟩
  case h_6 | h_7 | h_8 =>
    unfold LockupLab.trigger
    split
    all_goals exact ⟨rfl, rfl, rfl, rfl, fun _ => id⟩

/-- A thread is created only while no timer is armed. -/
theorem Dated.create {left : List Nat} {created : Nat → Bool} (inv : Inv mask s) (dated : Dated s)
    (here : s.phase = .creating (cpu :: left) created) :
    Dated { s.startThread created cpu with phase := .creating left created } := by
  refine ⟨fun c => ?_, fun c armed => absurd armed (inv.unarmed (by simp [here, Phase.mayFire]))⟩
  have earlier := dated.sign c
  unfold lastSign startThread at *
  by_cases yes : created cpu = true
  · simp only [yes, if_true]
    rcases eq_or_ne c cpu with rfl | other
    · simp
    · simpa only [Function.update_of_ne other] using earlier
  · simpa only [if_neg yes] using earlier

theorem Dated.proceed (inv : Inv mask s) (dated : Dated s) (goes : Proceeds mask s s') : Dated s' := by
  cases goes with
  | create here => exact dated.create inv here
  | @cancel cpu left _ =>
      refine dated.of_still ⟨rfl, rfl, rfl, rfl, fun c armed => ?_⟩
      rcases eq_or_ne c cpu with rfl | other
      · simp at armed
      · simpa [other] using armed
  | stopped =>
      have still := afterWdStop_still { s with watchdog := { s.watchdog with wdRunning := false } }
      exact dated.of_still ⟨still.touchTs, still.started, still.refreshed, still.clock, still.armed⟩
  | _ => exact dated.of_still ⟨rfl, rfl, rfl, rfl, fun _ => id⟩

theorem Dated.ipi (dated : Dated s) (cpu : Nat) (next : Phase) : Dated { s with
    watchdog := s.watchdog.startHrtimerLocal (fun _ => s.nowSec) cpu
    armed := Function.update s.armed cpu true
    phase := next } := by
  refine ⟨dated.sign, fun c armed => ?_⟩
  rcases eq_or_ne c cpu with rfl | other
  · exact ⟨s.clock, by simp [startHrtimerLocal, nowSec, secAt], Nat.le_refl _, dated.sign c⟩
  · obtain ⟨W, touched, past, later⟩ := dated.touched c (by simpa [other] using armed)
    exact ⟨W, by simpa [startHrtimerLocal, other] using touched, past, later⟩

theorem lastSign_thread (dated : Dated s) (cpu c : Nat) :
    lastSign { s with
      watchdog := s.watchdog.wdThreadFn cpu s.nowSec
      refreshed := Function.update s.refreshed cpu (some s.clock) } c =
      if c = cpu then s.clock else s.lastSign c := by
  have earlier := dated.sign c
  unfold lastSign at *
  rcases eq_or_ne c cpu with rfl | other
  · simp only [Function.update_self, Option.getD_some, if_true]
    omega
  · simp only [if_neg other, Function.update_of_ne other]

theorem Dated.thread (dated : Dated s) (cpu : Nat) : Dated { s with
    watchdog := s.watchdog.wdThreadFn cpu s.nowSec
    refreshed := Function.update s.refreshed cpu (some s.clock) } := by
  constructor
  · intro c
    rw [lastSign_thread dated]
    split
    · exact Nat.le_refl _
    · exact dated.sign c
  · intro c armed
    rw [lastSign_thread dated]
    rcases eq_or_ne c cpu with rfl | other
    · exact ⟨s.clock, by simp [wdThreadFn, nowSec, secAt], Nat.le_refl _, by simp⟩
    · obtain ⟨W, touched, past, later⟩ := dated.touched c armed
      exact ⟨W, by simpa [wdThreadFn, other] using touched, past, by simpa [other] using later⟩

theorem dated_step (inv : Inv mask s) (dated : Dated s) (fired : Fires (step mask) s event s') : Dated s' := by
  cases moves fired with
  | write => exact dated.of_still (llWrite_still _ s)
  | exit =>
      have still : Still _ (wdStop mask { s with exiting := true }) := wdStop_still _
      exact dated.of_still ⟨still.touchTs, still.started, still.refreshed, still.clock, still.armed⟩
  | proceed goes => exact dated.proceed inv goes
  | ipi => exact dated.ipi _ _
  | @timer cpu _ =>
      obtain ⟨_, _, _, _, _, changes⟩ := s.watchdog.wdTimerFn_changes mask cpu s.nowSec
      rw [changes]
      exact ⟨dated.sign, dated.touched⟩
  | thread => exact dated.thread _
  | threadReturns | khungReturns | generatorReturns => exact ⟨dated.sign, dated.touched⟩
  | pass =>
      refine ⟨fun c => Nat.le_add_right_of_le (dated.sign c), fun c armed => ?_⟩
      obtain ⟨W, touched, past, later⟩ := dated.touched c armed
      exact ⟨W, touched, Nat.le_add_right_of_le past, later⟩

/-! ## The threads and the threshold -/

def Agrees (mask : CpuMask) (σ : Setup) (s : LockupLab) : Phase → Prop
  | .idle => s.watchdog.wdRunning = σ.running
  | .creating left created => σ.running ∧
      ∀ cpu ∈ mask.onlineCpus, created cpu ∧ (cpu ∉ left → s.watchdog.wdThread cpu)
  | .arming _ => σ.running ∧ ∀ cpu ∈ mask.onlineCpus, s.watchdog.wdThread cpu
  | .cancelling _ | .stopping _ | .joining _ _ => s.exiting = false → σ.running = false
  | .joiningKhung => s.exiting = false → s.watchdog.wdRunning = σ.running
  | .unloaded | .oops => True

/-- The state follows what the commands so far have set up. -/
structure Sane (mask : CpuMask) (σ : Setup) (s : LockupLab) : Prop where
  thresh : s.watchdog.thresh = σ.thresh
  phase : Agrees mask σ s s.phase
  armed : ∀ cpu, s.armed cpu → s.watchdog.wdThread cpu ∧ InRange s.watchdog.thresh

theorem sane_loaded (mask : CpuMask) : Sane mask .init loaded where
  thresh := rfl
  phase := rfl
  armed := by simp [loaded]

theorem stopKhung_sane (thresh : s.watchdog.thresh = σ.thresh)
    (running : s.exiting = false → s.watchdog.wdRunning = σ.running)
    (armed : ∀ cpu, s.armed cpu → s.watchdog.wdThread cpu ∧ InRange s.watchdog.thresh) :
    Sane mask σ s.stopKhung := by
  unfold stopKhung
  split
  case h_1 =>
    refine ⟨thresh, ?_, armed⟩
    by_cases exiting : s.exiting = true
    · simp only [if_pos exiting]
      trivial
    · simp only [if_neg exiting]
      exact running (Bool.eq_false_of_not_eq_true exiting)
  case h_2 => exact ⟨thresh, trivial, armed⟩
  case h_3 => exact ⟨thresh, running, armed⟩

theorem afterWdStop_sane (thresh : s.watchdog.thresh = σ.thresh)
    (running : s.exiting = false → s.watchdog.wdRunning = σ.running)
    (armed : ∀ cpu, s.armed cpu → s.watchdog.wdThread cpu ∧ InRange s.watchdog.thresh) :
    Sane mask σ s.afterWdStop := by
  unfold afterWdStop
  split
  case isTrue => exact stopKhung_sane thresh running armed
  case isFalse staying => exact ⟨thresh, running (Bool.eq_false_of_not_eq_true staying), armed⟩

theorem llExit_sane (sane : Sane mask σ s) : Sane mask σ (s.llExit mask) := by
  unfold llExit wdStop
  split
  · exact ⟨sane.thresh, fun staying => Bool.noConfusion staying, sane.armed⟩
  · exact afterWdStop_sane sane.thresh (fun staying => Bool.noConfusion staying) sane.armed

theorem llWrite_sane {w : Write} (inv : Inv mask s) (idle : s.phase = .idle) (sane : Sane mask σ s)
    (good : (σ.next mask w).Good mask) : Sane mask (σ.next mask w) (s.llWrite mask w) := by
  have running : s.watchdog.wdRunning = σ.running := by simpa [idle, Agrees] using sane.phase
  have agrees : ∀ (σ' : Setup) (s' : LockupLab), s'.watchdog.wdRunning = σ'.running →
      Agrees mask σ' s' s.phase := by
    intro σ' s' same
    rw [idle]
    exact same
  have settled := inv.settled idle
  obtain ⟨command, created⟩ := w
  cases command with
  | wdOn =>
      show Sane mask (if σ.running then σ else _) (wdStart mask created s)
      unfold wdStart
      by_cases on : s.watchdog.wdRunning = true
      · rw [if_pos on, if_pos (running ▸ on)]
        exact sane
      · have off : ¬ σ.running = true := running ▸ on
        rw [if_neg on, if_neg off]
        refine ⟨sane.thresh, ⟨rfl, fun cpu online => ⟨?_, fun outside => absurd online outside⟩⟩,
          sane.armed⟩
        simp only [Setup.Good, Setup.next, if_neg off] at good
        have both := (good trivial cpu online).1
        exact ((Bool.and_eq_true _ _).mp both).2
  | wdOff =>
      show Sane mask { σ with running := false, threads := fun _ => false } (wdStop mask s)
      unfold wdStop
      split
      case isTrue => exact ⟨sane.thresh, fun _ => rfl, sane.armed⟩
      case isFalse off =>
        exact afterWdStop_sane sane.thresh (fun _ => Bool.eq_false_of_not_eq_true off) sane.armed
  | thresh a =>
      refine ⟨rfl, agrees _ _ running, fun cpu armed => ⟨(sane.armed cpu armed).1, ?_⟩⟩
      obtain ⟨online, on⟩ := settled.armed cpu armed
      exact (good (running ▸ on) cpu online).2
  | khungOn a =>
      show Sane mask σ (s.khungOn a (created 0))
      unfold khungOn
      simp only
      split
      · split
        all_goals exact ⟨sane.thresh, agrees σ _ running, sane.armed⟩
      all_goals exact ⟨sane.thresh, agrees σ _ running, sane.armed⟩
  | khungOff => exact stopKhung_sane sane.thresh (fun _ => running) sane.armed
  | soft a b | hard a b | hung a =>
      show Sane mask σ (s.trigger _ _ _ (created 0))
      unfold LockupLab.trigger
      split
      · exact ⟨sane.thresh, agrees σ _ running, sane.armed⟩
      · exact sane
  | stat => exact sane

theorem startThread_thresh (created : Nat → Bool) (w : Watchdog) (cpu : Nat) :
    (w.startThread created cpu).thresh = w.thresh := by
  unfold Watchdog.startThread
  split
  · rfl
  · rfl

theorem proceed_sane (inv : Inv mask s) (sane : Sane mask σ s) (goes : Proceeds mask s s') :
    Sane mask σ s' := by
  have phase := sane.phase
  cases goes with
  | @create cpu left created here =>
      rw [here] at phase
      obtain ⟨on, threads⟩ := phase
      refine ⟨(startThread_thresh created s.watchdog cpu).trans sane.thresh, ⟨on, fun c online => ?_⟩,
        fun c armed => absurd armed (inv.unarmed (by simp [here, Phase.mayFire]))⟩
      refine ⟨(threads c online).1, fun outside => ?_⟩
      refine (startThread_wdThread created s.watchdog cpu c).mpr ?_
      rcases eq_or_ne c cpu with rfl | other
      · exact Or.inr ⟨rfl, (threads c online).1⟩
      · exact Or.inl ((threads c online).2 (by simp [other, outside]))
  | created here =>
      rw [here] at phase
      exact ⟨sane.thresh, ⟨phase.1, fun c online => (phase.2 c online).2 List.not_mem_nil⟩, sane.armed⟩
  | armed here =>
      rw [here] at phase
      exact ⟨sane.thresh, phase.1.symm, sane.armed⟩
  | @cancel cpu left here =>
      rw [here] at phase
      refine ⟨sane.thresh, phase, fun c armed => ?_⟩
      rcases eq_or_ne c cpu with rfl | other
      · simp at armed
      · exact sane.armed c (by simpa [other] using armed)
  | stop here | skip here =>
      rw [here] at phase
      exact ⟨sane.thresh, phase, fun c armed =>
        absurd armed (inv.unarmed (by simp [here, Phase.mayFire]))⟩
  | cancelled here | join here =>
      rw [here] at phase
      exact ⟨sane.thresh, phase, sane.armed⟩
  | stopped here =>
      rw [here] at phase
      exact afterWdStop_sane sane.thresh (fun staying => (phase staying).symm) sane.armed
  | unload => exact ⟨sane.thresh, trivial, sane.armed⟩
  | leave here _ staying =>
      rw [here] at phase
      exact ⟨sane.thresh, phase staying, sane.armed⟩

theorem ipi_sane {left : List Nat} (inv : Inv mask s) (good : σ.Good mask) (sane : Sane mask σ s)
    (here : s.phase = .arming left) (member : cpu ∈ left) : Sane mask σ { s with
      watchdog := s.watchdog.startHrtimerLocal (fun _ => s.nowSec) cpu
      armed := Function.update s.armed cpu true
      phase := .arming (left.erase cpu) } := by
  have phase := sane.phase
  have fits := inv.phase
  rw [here] at phase fits
  obtain ⟨on, threads⟩ := phase
  refine ⟨sane.thresh, ⟨on, threads⟩, fun c armed => ?_⟩
  rcases eq_or_ne c cpu with rfl | other
  · have online := fits.2.2.2 member
    refine ⟨threads c online, ?_⟩
    show InRange s.watchdog.thresh
    rw [sane.thresh]
    exact (good on c online).2
  · exact sane.armed c (by simpa [other] using armed)

theorem sane_step (inv : Inv mask s) (good : σ.Good mask) (sane : Sane mask σ s)
    (command : event.write? = none) (fired : Fires (step mask) s event s') : Sane mask σ s' := by
  have same : ∀ s' : LockupLab, s'.watchdog.thresh = s.watchdog.thresh →
      s'.watchdog.wdRunning = s.watchdog.wdRunning → s'.watchdog.wdThread = s.watchdog.wdThread →
      s'.exiting = s.exiting → s'.phase = s.phase → s'.armed = s.armed → Sane mask σ s' := by
    intro s' thresh running threads exiting phase armed
    refine ⟨thresh.trans sane.thresh, ?_, ?_⟩
    · have agrees := sane.phase
      rw [phase]
      revert agrees
      cases s.phase <;> simp only [Agrees, running, threads, exiting, imp_self]
    · rw [armed, threads, thresh]
      exact sane.armed
  cases moves fired with
  | write => cases command
  | exit => exact llExit_sane sane
  | proceed goes => exact proceed_sane inv sane goes
  | ipi here member => exact ipi_sane inv good sane here member
  | @timer cpu _ =>
      obtain ⟨_, _, _, _, _, changes⟩ := s.watchdog.wdTimerFn_changes mask cpu s.nowSec
      rw [changes]
      exact same _ rfl rfl rfl rfl rfl rfl
  | thread | threadReturns | khungReturns | generatorReturns | pass =>
      exact same _ rfl rfl rfl rfl rfl rfl

/-! ## True reports -/

/-- The thread of the CPU exists, and neither started nor refreshed `touch_ts` within twice the threshold. -/
structure SoundReport (s : LockupLab) (cpu : Nat) : Prop where
  thread : s.watchdog.wdThread cpu
  positive : 0 < s.watchdog.thresh.toInt
  silent : s.lastSign cpu + 2 * s.watchdog.thresh.toInt.toNat * 1000000000 < s.clock

theorem soundReport_of_overdue (dated : Dated s) (armed : s.armed cpu)
    (thread : s.watchdog.wdThread cpu) (inRange : InRange s.watchdog.thresh)
    (overdue : s.watchdog.Overdue cpu s.nowSec) : SoundReport s cpu := by
  refine ⟨thread, inRange.1, ?_⟩
  obtain ⟨W, touched, past, later⟩ := dated.touched cpu armed
  have positive := inRange.1
  have below : (secAt W).toNat < 2 ^ 63 := by
    rw [secAt_toNat]
    omega
  have limit := softlockupLimit_toNat s.watchdog below (by rw [double_of_inRange inRange]; omega)
  rw [double_of_inRange inRange] at limit
  have late := UInt64.lt_iff_toNat_lt.mp overdue.2.1
  rw [touched] at late
  have elapsed : W + 2 * s.watchdog.thresh.toInt.toNat * 1000000000 < s.clock := by
    apply elapsed_of_secAt past
    show _ < s.nowSec.toNat
    omega
  omega

def ReportsSound (mask : CpuMask) (events : List LabEvent) : Prop :=
  ∀ before s cpu, before ++ [.timer cpu] <+: events → LabRuns mask before s → s.armed cpu →
    s.watchdog.PrintsSoftLockup mask cpu s.nowSec → SoundReport s cpu

variable {events : List LabEvent}

theorem sane_of_run (run : LabRuns mask events s) (clean : Clean mask (writes events)) :
    Sane mask ((writes events).foldl (Setup.next mask) .init) s := by
  refine run.history_invariant (fun events s => Clean mask (writes events) →
    Sane mask ((writes events).foldl (Setup.next mask) .init) s) (fun _ => sane_loaded mask) ?_ clean
  intro events before event after run ih fired clean
  have shorter : Clean mask (writes events) := fun prior initial => clean prior (initial.trans
    (by rw [writes_append]; exact List.prefix_append _ _))
  have sane := ih shorter
  have inv := inv_of_run run
  cases command : event.write? with
  | none =>
      have same : writes (events ++ [event]) = writes events := by
        rw [writes_append, writes_singleton command, List.append_nil]
      rw [same]
      exact sane_step inv (shorter _ List.prefix_rfl) sane command fired
  | some w =>
      have more : writes (events ++ [event]) = writes events ++ [w] := by
        rw [writes_append, writes, writes, List.filterMap_cons_some command, List.filterMap_nil]
      have good := clean _ List.prefix_rfl
      rw [more, List.foldl_append] at good ⊢
      cases moves fired with
      | write idle =>
          cases command
          exact llWrite_sane inv idle sane good
      | _ => cases command

theorem dated_of_run (run : LabRuns mask events s) : Dated s := by
  have both : Inv mask s ∧ Dated s := by
    apply run.invariant (fun s => Inv mask s ∧ Dated s)
    · exact ⟨inv_loaded, by simp [loaded, lastSign], by simp [loaded]⟩
    · intro before event after both fired
      exact ⟨inv_step both.1 fired, dated_step both.1 both.2 fired⟩
  exact both.2

theorem reportsSound_of_clean (clean : Clean mask (writes events)) : ReportsSound mask events := by
  intro before s cpu initial run armed prints
  have initial : writes before <+: writes events := by
    have shorter : before <+: events := (List.prefix_append before [.timer cpu]).trans initial
    obtain ⟨rest, rfl⟩ := shorter
    rw [writes_append]
    exact List.prefix_append _ _
  have sane := sane_of_run run fun prior earlier => clean prior (earlier.trans initial)
  obtain ⟨thread, inRange⟩ := sane.armed cpu armed
  exact soundReport_of_overdue (dated_of_run run) armed thread inRange (prints_iff.mp prints)

/-! ## False alarms -/

theorem calm_pass (calm : Calm mask s) (off : s.watchdog.wdRunning = false) (ns : Nat) :
    Calm mask { s with clock := s.clock + ns } := by
  have inv : Inv mask { s with clock := s.clock + ns } :=
    inv_step calm.inv (show Fires (step mask) s (.pass ns) _ from rfl)
  refine ⟨inv, calm.idle, calm.khung, calm.latches, ?_, calm.alive⟩
  intro on
  exact Bool.noConfusion (off.symm.trans on)

/-- Long after boot, so that no limit is below zero. -/
def late : Nat := 2 ^ 32 * 1000000000

theorem secAt_late : (secAt late).toNat = 2 ^ 32 := by
  rw [secAt_toNat, late]
  norm_num

theorem overdue_of_late {w : Watchdog} {now : UInt64} (touched : w.touchTs cpu = secAt late)
    (latches : w.softReported = fun _ => false)
    (past : 2 ^ 32 + (2 * w.thresh).toInt < now.toNat) : w.Overdue cpu now := by
  have lower := (2 * w.thresh).le_toInt
  have below : (secAt late).toNat < 2 ^ 63 := by
    rw [secAt_late]
    norm_num
  have limit := softlockupLimit_toNat w below (by rw [secAt_late]; omega)
  refine ⟨?_, ?_, by rw [latches]⟩
  · rw [touched]
    intro zero
    have value := secAt_late
    rw [zero] at value
    contradiction
  · rw [touched]
    refine UInt64.lt_iff_toNat_lt.mpr ?_
    rw [secAt_late] at limit
    omega

theorem alarm_of_overdue (run : LabRuns mask events s) (armed : s.armed cpu)
    (overdue : s.watchdog.Overdue cpu s.nowSec) (wrong : ¬ SoundReport s cpu) :
    ∃ last, LabRuns mask (events ++ [LabEvent.timer cpu]) last ∧
      ¬ ReportsSound mask (events ++ [LabEvent.timer cpu]) := by
  have fires : step mask s (.timer cpu) =
      some { s with watchdog := s.watchdog.wdTimerFn mask cpu s.nowSec } := if_pos armed
  refine ⟨_, .snoc run fires, fun sound => wrong ?_⟩
  exact sound events s cpu List.prefix_rfl run armed (prints_iff.mpr overdue)

/-- Twice a threshold of 2^30 or more is a negative `int`. -/
theorem alarm_of_huge (run : LabRuns mask events s) (calm : Calm mask s) (clock : s.clock = late)
    (armed : s.armed cpu) (owned : s.watchdog.wdThread cpu)
    (huge : 2 ^ 30 ≤ s.watchdog.thresh.toInt) :
    ∃ last, LabRuns mask (events ++ [LabEvent.thread cpu] ++ [LabEvent.timer cpu]) last ∧
      ¬ ReportsSound mask (events ++ [LabEvent.thread cpu] ++ [LabEvent.timer cpu]) := by
  let after : LockupLab := { s with
    watchdog := s.watchdog.wdThreadFn cpu s.nowSec
    refreshed := Function.update s.refreshed cpu (some s.clock) }
  have turn : step mask s (.thread cpu) = some after := by simp [step, calm.alive cpu owned, after]
  have now : s.nowSec = secAt late := congrArg secAt clock
  refine alarm_of_overdue (s := after) (.snoc run turn) armed (overdue_of_late ?_ calm.latches ?_) ?_
  · simp [after, wdThreadFn, now]
  · have upper := s.watchdog.thresh.toInt_lt
    have double : (2 * s.watchdog.thresh).toInt = 2 * s.watchdog.thresh.toInt - 2 ^ 32 := by
      rw [Int32.toInt_mul, show (2 : Int32).toInt = 2 from rfl, Int.bmod_def]
      split
      · omega
      · omega
    show 2 ^ 32 + (2 * s.watchdog.thresh).toInt < (s.nowSec.toNat : Int)
    rw [double, now, secAt_late]
    omega
  · intro report
    have silent := report.silent
    have still : after.clock = s.clock := rfl
    have fresh : s.clock ≤ after.lastSign cpu := by simp [lastSign, after]
    omega

theorem alarm_of_wait (run : LabRuns mask events s) (calm : Calm mask s) (clock : s.clock = late)
    (armed : s.armed cpu) (touched : s.watchdog.touchTs cpu = s.nowSec)
    (wrong : ¬ (s.watchdog.wdThread cpu ∧ 0 < s.watchdog.thresh.toInt)) :
    ∃ last, LabRuns mask (events ++ [LabEvent.pass late] ++ [LabEvent.timer cpu]) last ∧
      ¬ ReportsSound mask (events ++ [LabEvent.pass late] ++ [LabEvent.timer cpu]) := by
  have waited : step mask s (.pass late) = some { s with clock := s.clock + late } := rfl
  have now : s.nowSec = secAt late := congrArg secAt clock
  refine alarm_of_overdue (s := { s with clock := s.clock + late }) (.snoc run waited) armed
    (overdue_of_late ?_ calm.latches ?_) fun report => wrong ⟨report.thread, report.positive⟩
  · exact touched.trans now
  · have upper := (2 * s.watchdog.thresh).toInt_lt
    show 2 ^ 32 + (2 * s.watchdog.thresh).toInt < ((secAt (s.clock + late)).toNat : Int)
    rw [secAt_toNat, clock, late]
    omega

theorem exists_false_alarm {script : List Write} (quiet : ∀ w ∈ script, ∀ a, w.command ≠ .khungOn a)
    (bad : ¬ (script.foldl (Setup.next mask) .init).Good mask) :
    ∃ events s, LabRuns mask events s ∧ writes events = script ∧ ¬ ReportsSound mask events := by
  have start := calm_pass (calm_loaded mask) rfl late
  obtain ⟨events, s, run, written, calm, setup, clock, -, -⟩ :=
    exists_scripted script start fun w member a command => absurd command (quiet w member a)
  have whole : LabRuns mask ([.pass late] ++ events) s := (Run.snoc .nil rfl).append run
  have same : s.clock = late := by rw [clock, loaded, Nat.zero_add]
  have pass : writes [.pass late] = [] := rfl
  rw [Setup.Good] at bad
  push Not at bad
  obtain ⟨on, cpu, online, wrong⟩ := bad
  rw [show (script.foldl (Setup.next mask) .init) = s.setup from setup.symm] at on wrong
  obtain ⟨armed, touched⟩ := calm.armed on cpu online
  have thread : writes [.thread cpu] = [] := rfl
  have timer : writes [.timer cpu] = [] := rfl
  by_cases huge : s.watchdog.wdThread cpu ∧ 0 < s.watchdog.thresh.toInt
  · obtain ⟨last, run', alarm⟩ := alarm_of_huge whole calm same armed huge.1
      (Int.not_lt.mp fun small => wrong huge.1 ⟨huge.2, small⟩)
    refine ⟨_, last, run', ?_, alarm⟩
    simp only [writes_append, written, pass, thread, timer, List.nil_append, List.append_nil]
  · obtain ⟨last, run', alarm⟩ := alarm_of_wait whole calm same armed touched huge
    refine ⟨_, last, run', ?_, alarm⟩
    simp only [writes_append, written, pass, timer, List.nil_append, List.append_nil]

end LockupLab

inductive WdCommand
  | wdOn (created : Nat → Bool)
  | wdOff
  | thresh (a : Int32)

def WdCommand.write : WdCommand → Write
  | .wdOn created => ⟨.wdOn, created⟩
  | .wdOff => ⟨.wdOff, fun _ => false⟩
  | .thresh a => ⟨.thresh a, fun _ => false⟩

open LockupLab in
/-- The scripts of which no run, however it goes, prints a false report. -/
theorem soft_reports_sound_iff (mask : CpuMask) (script : List WdCommand) :
    (∀ events s, LabRuns mask events s → writes events <+: script.map WdCommand.write →
      ReportsSound mask events) ↔ Clean mask (script.map WdCommand.write) := by
  constructor
  · intro sound before initial
    by_contra bad
    have quiet : ∀ w ∈ before, ∀ a, w.command ≠ .khungOn a := by
      intro w member a command
      obtain ⟨c, -, rfl⟩ := List.mem_map.mp (initial.subset member)
      cases c <;> cases command
    obtain ⟨events, s, run, rfl, alarm⟩ := exists_false_alarm quiet bad
    exact alarm (sound events s run initial)
  · intro clean events s run initial
    exact reportsSound_of_clean fun before shorter => clean before (shorter.trans initial)

/-- `kthread_create` fails at 100 s, and at 112 s the handler blames a thread that was never there. -/
def unwatched : List LabEvent :=
  [.pass 100000000000, .write ⟨.wdOn, fun _ => false⟩, .proceed, .proceed, .ipi 0, .proceed,
    .pass 12000000000]

open LockupLab in
theorem unwatched_cpu_reported : ¬ ReportsSound ⟨1, fun _ => true⟩ (unwatched ++ [.timer 0]) := by
  let s := (unwatched.foldlM (step ⟨1, fun _ => true⟩) loaded).getD loaded
  have run : LabRuns ⟨1, fun _ => true⟩ unwatched s := run_of_foldlM rfl
  have overdue : s.watchdog.Overdue 0 s.nowSec := by
    refine ⟨?_, ?_, rfl⟩
    · decide
    · decide
  intro sound
  have report := sound unwatched s 0 List.prefix_rfl run rfl (prints_iff.mpr overdue)
  exact Bool.noConfusion report.thread

end LinuxInterview.Lockup
