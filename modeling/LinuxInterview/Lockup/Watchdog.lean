import LinuxInterview.Lockup.Neighbour
import LinuxInterview.Library.Runs

/-!
# The small watchdog of `lockup_lab.c`
-/

namespace LinuxInterview.Lockup
open Library

inductive Message
  | hardLockup (nb nbTicks cpu : Nat)
  | hardLockupOver (nb saved nbTicks : Nat)
  | softLockup (cpu : Nat) (stuck : UInt64) (ticks : Nat)
  | softLockupOver (cpu : Nat)

structure Watchdog where
  thresh : Int32
  hrtimerTicks : Nat → Nat
  hrtimerTicksSaved : Nat → Nat
  touchTs : Nat → UInt64
  kickPending : Nat → Bool
  wdThread : Nat → Bool
  softReported : Nat → Bool
  hardReported : Nat → Bool
  wdRunning : Bool
  dmesg : List Message

inductive WatchdogEvent
  | timer (cpu : Nat) (now : UInt64)
  | thread (cpu : Nat) (now : UInt64)
  | thresh (secs : Int32)
  | wdOn (created : Nat → Bool) (now : Nat → UInt64)

namespace Watchdog

def loaded : Watchdog where
  thresh := 5
  hrtimerTicks _ := 0
  hrtimerTicksSaved _ := 0
  touchTs _ := 0
  kickPending _ := false
  wdThread _ := false
  softReported _ := false
  hardReported _ := false
  wdRunning := false
  dmesg := []

/-! ## `wd_timer_fn` -/

/-- Step (2): the heartbeat of the neighbour. -/
def checkNeighbour (mask : CpuMask) (cpu : Nat) (w : Watchdog) : Watchdog :=
  let nb := mask.nextCpuOf cpu
  if nb < mask.nrCpuIds then
    let nbTicks := w.hrtimerTicks nb
    if w.hrtimerTicksSaved nb = nbTicks then
      if w.hardReported nb then w
      else { w with
        hardReported := Function.update w.hardReported nb true
        dmesg := w.dmesg ++ [.hardLockup nb nbTicks cpu] }
    else
      let w := if w.hardReported nb then { w with
          dmesg := w.dmesg ++ [.hardLockupOver nb (w.hrtimerTicksSaved nb) nbTicks]
          hardReported := Function.update w.hardReported nb false }
        else w
      { w with hrtimerTicksSaved := Function.update w.hrtimerTicksSaved nb nbTicks }
  else w

/-- Step (3): the watchdog thread of the CPU is woken. -/
def kickThread (cpu : Nat) (w : Watchdog) : Watchdog :=
  if w.kickPending cpu = false ∧ w.wdThread cpu then
    { w with kickPending := Function.update w.kickPending cpu true }
  else w

def softlockupLimit (w : Watchdog) (ts : UInt64) : UInt64 := ts + (2 * w.thresh).toInt64.toUInt64

/-- Step (4): the time since the thread last ran. -/
def checkSoftlockup (cpu : Nat) (now : UInt64) (ticks : Nat) (w : Watchdog) : Watchdog :=
  let ts := w.touchTs cpu
  if ts ≠ 0 ∧ now > w.softlockupLimit ts then
    if w.softReported cpu then w
    else { w with
      softReported := Function.update w.softReported cpu true
      dmesg := w.dmesg ++ [.softLockup cpu (now - ts) ticks] }
  else if w.softReported cpu ∧ ts ≠ 0 ∧ now ≤ w.softlockupLimit ts then { w with
      softReported := Function.update w.softReported cpu false
      dmesg := w.dmesg ++ [.softLockupOver cpu] }
  else w

def wdTimerFn (mask : CpuMask) (cpu : Nat) (now : UInt64) (w : Watchdog) : Watchdog :=
  let ticks := w.hrtimerTicks cpu + 1
  let w := { w with hrtimerTicks := Function.update w.hrtimerTicks cpu ticks }
  let w := if ticks % 3 = 0 then w.checkNeighbour mask cpu else w
  let w := w.kickThread cpu
  w.checkSoftlockup cpu now ticks

section Frame
variable (mask : CpuMask) (cpu : Nat) (now : UInt64) (w : Watchdog)

theorem checkNeighbour_changes : ∃ saved hard dmesg, w.checkNeighbour mask cpu =
    { w with hrtimerTicksSaved := saved, hardReported := hard, dmesg := dmesg } := by
  unfold checkNeighbour
  simp only
  split
  · split
    · split
      · exact ⟨_, _, _, rfl⟩
      · exact ⟨_, _, _, rfl⟩
    · split
      · exact ⟨_, _, _, rfl⟩
      · exact ⟨_, _, _, rfl⟩
  · exact ⟨_, _, _, rfl⟩

theorem checkSoftlockup_changes (ticks : Nat) : ∃ soft dmesg, w.checkSoftlockup cpu now ticks =
    { w with softReported := soft, dmesg := dmesg } := by
  unfold checkSoftlockup
  simp only
  split
  · split
    · exact ⟨_, _, rfl⟩
    · exact ⟨_, _, rfl⟩
  · split
    · exact ⟨_, _, rfl⟩
    · exact ⟨_, _, rfl⟩

theorem wdTimerFn_changes : ∃ ticks saved soft hard dmesg, w.wdTimerFn mask cpu now = { w with
    hrtimerTicks := ticks
    hrtimerTicksSaved := saved
    kickPending := (w.kickThread cpu).kickPending
    softReported := soft
    hardReported := hard
    dmesg := dmesg } := by
  have kick : ∀ w : Watchdog, w.kickThread cpu =
      { w with kickPending := if w.kickPending cpu = false ∧ w.wdThread cpu
        then Function.update w.kickPending cpu true else w.kickPending } := by
    intro w
    unfold kickThread
    split <;> rfl
  unfold wdTimerFn
  simp only
  split
  · obtain ⟨saved, hard, dmesg, neighbour⟩ := checkNeighbour_changes mask cpu
      { w with hrtimerTicks := Function.update w.hrtimerTicks cpu (w.hrtimerTicks cpu + 1) }
    rw [neighbour, kick, kick w]
    obtain ⟨soft, dmesg, softlockup⟩ := checkSoftlockup_changes cpu now _ (w.hrtimerTicks cpu + 1)
    rw [softlockup]
    exact ⟨_, _, _, _, _, rfl⟩
  · rw [kick, kick w]
    obtain ⟨soft, dmesg, softlockup⟩ := checkSoftlockup_changes cpu now _ (w.hrtimerTicks cpu + 1)
    rw [softlockup]
    exact ⟨_, _, _, _, _, rfl⟩

end Frame

/-! ## The thread and the commands -/

/-- One turn of the loop of `wd_thread_fn`, from its waking up. -/
def wdThreadFn (cpu : Nat) (now : UInt64) (w : Watchdog) : Watchdog := { w with
  kickPending := Function.update w.kickPending cpu false
  touchTs := Function.update w.touchTs cpu now }

/-- The body of the first loop of `wd_start`; the creation of the thread may fail. -/
def startThread (created : Nat → Bool) (w : Watchdog) (cpu : Nat) : Watchdog :=
  if created cpu then { w with
    wdThread := Function.update w.wdThread cpu true
    softReported := Function.update w.softReported cpu false
    hardReported := Function.update w.hardReported cpu false }
  else w

def startHrtimerLocal (now : Nat → UInt64) (w : Watchdog) (cpu : Nat) : Watchdog :=
  { w with touchTs := Function.update w.touchTs cpu (now cpu) }

def wdStart (mask : CpuMask) (created : Nat → Bool) (now : Nat → UInt64) (w : Watchdog) : Watchdog :=
  if w.wdRunning then w
  else
    let w := mask.onlineCpus.foldl (startThread created) w
    let w := mask.onlineCpus.foldl (startHrtimerLocal now) w
    { w with wdRunning := true }

def next (mask : CpuMask) (w : Watchdog) : WatchdogEvent → Watchdog
  | .timer cpu now => w.wdTimerFn mask cpu now
  | .thread cpu now => w.wdThreadFn cpu now
  | .thresh secs => { w with thresh := secs }
  | .wdOn created now => w.wdStart mask created now

def Permits (mask : CpuMask) (w : Watchdog) : WatchdogEvent → Prop
  | .timer cpu _ => cpu ∈ mask.onlineCpus
  | .thread cpu _ => cpu ∈ mask.onlineCpus ∧ w.wdThread cpu
  | .thresh _ | .wdOn _ _ => True

instance (mask : CpuMask) (w : Watchdog) : (event : WatchdogEvent) → Decidable (w.Permits mask event)
  | .timer _ _ => inferInstanceAs (Decidable (_ ∈ _))
  | .thread _ _ => inferInstanceAs (Decidable (_ ∧ _))
  | .thresh _ | .wdOn _ _ => isTrue trivial

def firstSession (mask : CpuMask) (secs : Int32) (created : Nat → Bool) (now : Nat → UInt64) : Watchdog :=
  wdStart mask created now { loaded with thresh := secs }

end Watchdog

abbrev Session (mask : CpuMask) := Run (Guarded (Watchdog.Permits mask) (Watchdog.next mask))

end LinuxInterview.Lockup
