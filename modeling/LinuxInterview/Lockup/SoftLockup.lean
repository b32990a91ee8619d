import LinuxInterview.Lockup.Watchdog

/-!
# When the handler prints a soft lockup
-/

namespace LinuxInterview.Lockup
open Library

/-! ## The limit -/

theorem signExtend_toNat (d : Int32) : (d.toInt64.toUInt64.toNat : Int) = d.toInt % 2 ^ 64 := by
  rw [← Int32.toInt_toInt64]
  show ((d.toInt64.toBitVec.toNat : Nat) : Int) = d.toInt64.toBitVec.toInt % _
  rw [BitVec.toInt_eq_toNat_bmod]
  have wraps := Int.bmod_emod (x := d.toInt64.toBitVec.toNat) (m := 2 ^ 64)
  have below := d.toInt64.toBitVec.isLt
  omega

theorem softlockupLimit_toNat (w : Watchdog) {ts : UInt64} (below : ts.toNat < 2 ^ 63)
    (positive : 0 ≤ (ts.toNat : Int) + (2 * w.thresh).toInt) :
    ((w.softlockupLimit ts).toNat : Int) = ts.toNat + (2 * w.thresh).toInt := by
  unfold Watchdog.softlockupLimit
  have upper := (2 * w.thresh).toInt_lt
  have extended := signExtend_toNat (2 * w.thresh)
  rw [UInt64.toNat_add]
  omega

/-- The values of `thresh` whose double is a positive `int`. -/
def InRange (thresh : Int32) : Prop := 0 < thresh.toInt ∧ thresh.toInt < 2 ^ 30

theorem double_of_inRange {thresh : Int32} (inRange : InRange thresh) :
    (2 * thresh).toInt = 2 * thresh.toInt := by
  obtain ⟨positive, below⟩ := inRange
  rw [Int32.toInt_mul, show (2 : Int32).toInt = 2 from rfl, Int.bmod_eq_of_le]
  · omega
  · omega

def secAt (ns : Nat) : UInt64 := UInt64.ofNat ns / 1000000000

theorem secAt_toNat (ns : Nat) : (secAt ns).toNat = ns % 2 ^ 64 / 1000000000 := by
  simp [secAt]

/-- Seconds that are counted by a clock of 64 bits are real seconds, even where the clock wraps. -/
theorem elapsed_of_secAt {before after secs : Nat} (order : before ≤ after)
    (late : (secAt before).toNat + secs < (secAt after).toNat) : before + secs * 1000000000 < after := by
  rw [secAt_toNat, secAt_toNat] at late
  omega

/-! ## What the handler prints -/

def Message.IsSoft (cpu : Nat) : Message → Prop
  | .softLockup c _ _ => c = cpu
  | _ => False

namespace Watchdog

variable {mask : CpuMask} {cpu : Nat} {w : Watchdog} {now : UInt64}

theorem checkNeighbour_dmesg (mask : CpuMask) (cpu c : Nat) (w : Watchdog) :
    ∃ new, (w.checkNeighbour mask cpu).dmesg = w.dmesg ++ new ∧ ∀ m ∈ new, ¬ Message.IsSoft c m := by
  unfold checkNeighbour
  simp only
  split
  · split
    · split
      · exact ⟨[], by simp, by simp⟩
      · exact ⟨_, rfl, by simp [Message.IsSoft]⟩
    · split
      · exact ⟨_, rfl, by simp [Message.IsSoft]⟩
      · exact ⟨[], by simp, by simp⟩
  · exact ⟨[], by simp, by simp⟩

def Overdue (cpu : Nat) (now : UInt64) (w : Watchdog) : Prop :=
  w.touchTs cpu ≠ 0 ∧ now > w.softlockupLimit (w.touchTs cpu) ∧ w.softReported cpu = false

def PrintsSoftLockup (mask : CpuMask) (cpu : Nat) (now : UInt64) (w : Watchdog) : Prop :=
  ∃ new, (w.wdTimerFn mask cpu now).dmesg = w.dmesg ++ new ∧ ∃ m ∈ new, Message.IsSoft cpu m

theorem checkSoftlockup_dmesg (cpu : Nat) (now : UInt64) (ticks : Nat) (w : Watchdog) :
    ∃ new, (w.checkSoftlockup cpu now ticks).dmesg = w.dmesg ++ new ∧
      ((∃ m ∈ new, Message.IsSoft cpu m) ↔ w.Overdue cpu now) := by
  unfold checkSoftlockup Overdue
  simp only
  split
  case isTrue late =>
    split
    case isTrue reported => exact ⟨[], by simp, by simp [reported]⟩
    case isFalse clear => exact ⟨_, rfl, by simp [Message.IsSoft, clear, late]⟩
  case isFalse early =>
    have quiet : ¬ (w.touchTs cpu ≠ 0 ∧ now > w.softlockupLimit (w.touchTs cpu) ∧
        w.softReported cpu = false) := fun ⟨touched, late, _⟩ => early ⟨touched, late⟩
    split
    · exact ⟨_, rfl, by simpa [Message.IsSoft] using quiet⟩
    · exact ⟨[], by simp, by simpa using quiet⟩

theorem kickThread_changes (cpu : Nat) (w : Watchdog) :
    ∃ kicks, w.kickThread cpu = { w with kickPending := kicks } := by
  unfold kickThread
  split
  · exact ⟨_, rfl⟩
  · exact ⟨_, rfl⟩

theorem wdTimerFn_eq (mask : CpuMask) (cpu : Nat) (now : UInt64) (w : Watchdog) :
    ∃ (before : Watchdog) (ticks : Nat) (new : List Message), w.wdTimerFn mask cpu now = before.checkSoftlockup cpu now ticks ∧
      before.dmesg = w.dmesg ++ new ∧ (∀ m ∈ new, ¬ Message.IsSoft cpu m) ∧ before.touchTs = w.touchTs ∧ before.thresh = w.thresh ∧
      before.softReported = w.softReported := by
  unfold wdTimerFn
  simp only
  split
  · obtain ⟨_, _, _, neighbour⟩ := checkNeighbour_changes mask cpu
      { w with hrtimerTicks := Function.update w.hrtimerTicks cpu (w.hrtimerTicks cpu + 1) }
    obtain ⟨new, dmesg, other⟩ := checkNeighbour_dmesg mask cpu cpu
      { w with hrtimerTicks := Function.update w.hrtimerTicks cpu (w.hrtimerTicks cpu + 1) }
    obtain ⟨_, kick⟩ := kickThread_changes cpu (checkNeighbour mask cpu
      { w with hrtimerTicks := Function.update w.hrtimerTicks cpu (w.hrtimerTicks cpu + 1) })
    refine ⟨_, _, new, rfl, ?_⟩
    rw [kick]
    refine ⟨dmesg, other, ?_⟩
    rw [neighbour]
    exact ⟨rfl, rfl, rfl⟩
  · obtain ⟨_, kick⟩ := kickThread_changes cpu
      { w with hrtimerTicks := Function.update w.hrtimerTicks cpu (w.hrtimerTicks cpu + 1) }
    refine ⟨_, _, [], rfl, ?_⟩
    rw [kick]
    exact ⟨by simp, by simp, rfl, rfl, rfl⟩

theorem prints_iff : w.PrintsSoftLockup mask cpu now ↔ w.Overdue cpu now := by
  obtain ⟨before, ticks, new, split, dmesg, other, touchTs, thresh, latches⟩ := wdTimerFn_eq mask cpu now w
  obtain ⟨soft, last, overdue⟩ := before.checkSoftlockup_dmesg cpu now ticks
  have same : before.Overdue cpu now ↔ w.Overdue cpu now := by
    rw [Overdue, Overdue, softlockupLimit, softlockupLimit, touchTs, thresh, latches]
  rw [← same, ← overdue, PrintsSoftLockup, split, last, dmesg]
  constructor
  · rintro ⟨all, whole, m, member, isSoft⟩
    rw [List.append_assoc, List.append_cancel_left_eq] at whole
    rw [← whole] at member
    rcases List.mem_append.mp member with early | late
    · exact absurd isSoft (other m early)
    · exact ⟨m, late, isSoft⟩
  · rintro ⟨m, late, isSoft⟩
    exact ⟨new ++ soft, List.append_assoc _ _ _, m, List.mem_append_right _ late, isSoft⟩

end Watchdog

end LinuxInterview.Lockup
