import Mathlib.Tactic

/-!
# Watching a counter

The watcher has ticks of its own, and every `period` of them it compares the beats of the watched
party with those at its last look.
-/

namespace LinuxInterview.Library

inductive Signal
  | beat
  | tick
  deriving DecidableEq

structure Monitor where
  beats : Nat
  saved : Nat
  ticks : Nat
  alarmed : Bool
  alarms : Nat

namespace Monitor

def init : Monitor := ⟨0, 0, 0, false, 0⟩

def look (m : Monitor) : Monitor :=
  if m.saved = m.beats then
    { m with alarmed := true, alarms := if m.alarmed then m.alarms else m.alarms + 1 }
  else { m with alarmed := false, saved := m.beats }

def next (period : Nat) (m : Monitor) : Signal → Monitor
  | .beat => { m with beats := m.beats + 1 }
  | .tick =>
      let m := { m with ticks := m.ticks + 1 }
      if m.ticks % period = 0 then m.look else m

def watch (period : Nat) (m : Monitor) (signals : List Signal) : Monitor :=
  signals.foldl (next period) m

variable {period : Nat} {m : Monitor} {signals : List Signal}

theorem watch_append_singleton (signals : List Signal) (signal : Signal) :
    watch period m (signals ++ [signal]) = next period (watch period m signals) signal := by
  rw [watch, List.foldl_append]
  rfl

@[simp] theorem look_beats (m : Monitor) : m.look.beats = m.beats := by
  unfold look
  split <;> rfl

@[simp] theorem look_ticks (m : Monitor) : m.look.ticks = m.ticks := by
  unfold look
  split <;> rfl

@[simp] theorem look_saved (m : Monitor) : m.look.saved = m.beats := by
  unfold look
  split
  · assumption
  · rfl

theorem next_tick_of_look (due : (m.ticks + 1) % period = 0) :
    m.next period .tick = { m with ticks := m.ticks + 1 }.look := if_pos due

theorem next_tick_of_not_look (early : (m.ticks + 1) % period ≠ 0) :
    m.next period .tick = { m with ticks := m.ticks + 1 } := if_neg early

theorem watch_counts (period : Nat) (m : Monitor) (signals : List Signal) :
    (watch period m signals).beats = m.beats + signals.count .beat ∧
      (watch period m signals).ticks = m.ticks + signals.count .tick := by
  induction signals using List.reverseRecOn with
  | nil => exact ⟨rfl, rfl⟩
  | append_singleton signals signal ih =>
      obtain ⟨beats, ticks⟩ := ih
      rw [watch_append_singleton, List.count_append, List.count_append]
      cases signal with
      | beat => exact ⟨congrArg (· + 1) beats, ticks⟩
      | tick =>
          by_cases due : ((watch period m signals).ticks + 1) % period = 0
          · rw [next_tick_of_look due, look_beats, look_ticks]
            exact ⟨beats, congrArg (· + 1) ticks⟩
          · rw [next_tick_of_not_look due]
            exact ⟨beats, congrArg (· + 1) ticks⟩

/-! ## The last look -/

/-- The start, or a moment at which the watcher has just looked. -/
def Look (period : Nat) (signals : List Signal) : Prop :=
  (signals = [] ∨ ∃ earlier, signals = earlier ++ [.tick]) ∧ period ∣ signals.count .tick

theorem exists_last_look (positive : 0 < period) (signals : List Signal) :
    ∃ earlier since, signals = earlier ++ since ∧ Look period earlier ∧ since.count .tick < period ∧
      (watch period init signals).saved = earlier.count .beat := by
  induction signals using List.reverseRecOn with
  | nil => exact ⟨[], [], rfl, ⟨Or.inl rfl, dvd_zero period⟩, positive, rfl⟩
  | append_singleton signals signal ih =>
      obtain ⟨earlier, since, split, ⟨last, whole⟩, recent, saved⟩ := ih
      obtain ⟨beats, ticks⟩ := watch_counts period init signals
      have fromZero : (watch period init signals).ticks = signals.count .tick :=
        ticks.trans (Nat.zero_add _)
      rw [watch_append_singleton]
      cases signal with
      | beat =>
          refine ⟨earlier, since ++ [.beat], by rw [split, List.append_assoc], ⟨last, whole⟩, ?_, saved⟩
          rwa [List.count_append]
      | tick =>
          by_cases due : ((watch period init signals).ticks + 1) % period = 0
          · refine ⟨signals ++ [.tick], [], (List.append_nil _).symm, ⟨Or.inr ⟨signals, rfl⟩, ?_⟩, positive, ?_⟩
            · rw [List.count_append]
              exact Nat.dvd_of_mod_eq_zero (fromZero ▸ due)
            · rw [next_tick_of_look due, look_saved, List.count_append]
              exact beats.trans (Nat.zero_add _)
          · refine ⟨earlier, since ++ [.tick], by rw [split, List.append_assoc], ⟨last, whole⟩, ?_, ?_⟩
            · rw [List.count_append]
              apply Nat.lt_of_le_of_ne recent
              intro full
              apply due
              rw [fromZero, split, List.count_append, Nat.add_assoc]
              exact Nat.mod_eq_zero_of_dvd (Nat.dvd_add whole (full ▸ dvd_rfl))
            · rw [next_tick_of_not_look due]
              exact saved

/-- An alarm is raised at a look, when no beat has come since the look before it. -/
theorem quiet_of_alarm (positive : 0 < period) {signals : List Signal} {signal : Signal}
    (alarm : (watch period init signals).alarms < (next period (watch period init signals) signal).alarms) :
    signal = .tick ∧ ∃ earlier since, signals = earlier ++ since ∧ Look period earlier ∧
      since.count .beat = 0 ∧ since.count .tick + 1 = period := by
  cases signal with
  | beat => exact absurd alarm (lt_irrefl _)
  | tick =>
      refine ⟨rfl, ?_⟩
      obtain ⟨earlier, since, split, ⟨last, whole⟩, recent, saved⟩ := exists_last_look positive signals
      obtain ⟨beats, ticks⟩ := watch_counts period init signals
      have due : ((watch period init signals).ticks + 1) % period = 0 := by
        by_contra early
        rw [next_tick_of_not_look early] at alarm
        exact lt_irrefl _ alarm
      have still : (watch period init signals).saved = (watch period init signals).beats := by
        by_contra moved
        rw [next_tick_of_look due, look, if_neg moved] at alarm
        exact lt_irrefl _ alarm
      refine ⟨earlier, since, split, ⟨last, whole⟩, ?_, ?_⟩
      · rw [saved, beats, split, List.count_append] at still
        simp only [init] at still
        omega
      · apply Nat.le_antisymm recent
        apply Nat.le_of_dvd (Nat.succ_pos _)
        rw [ticks, split, List.count_append] at due
        apply (Nat.dvd_add_right whole).mp
        apply Nat.dvd_of_mod_eq_zero
        simpa only [init, Nat.zero_add, Nat.add_assoc] using due

/-! ## While no beat comes -/

theorem saved_le_beats (signals : List Signal) :
    (watch period init signals).saved ≤ (watch period init signals).beats := by
  induction signals using List.reverseRecOn with
  | nil => exact le_rfl
  | append_singleton signals signal ih =>
      rw [watch_append_singleton]
      cases signal with
      | beat => exact Nat.le_succ_of_le ih
      | tick =>
          by_cases due : ((watch period init signals).ticks + 1) % period = 0
          · rw [next_tick_of_look due, look_saved, look_beats]
          · rw [next_tick_of_not_look due]
            exact ih

theorem look_alarms (m : Monitor) :
    m.look.alarms = if m.saved = m.beats ∧ m.alarmed = false then m.alarms + 1 else m.alarms := by
  unfold look
  by_cases still : m.saved = m.beats <;> cases alarmed : m.alarmed <;> simp [still]

theorem look_alarmed (m : Monitor) : m.look.alarmed = decide (m.saved = m.beats) := by
  unfold look
  by_cases still : m.saved = m.beats <;> simp [still]

/-- The rule for stretches without a beat: an invariant of looks and of the other ticks holds on. -/
theorem silent_invariant (Inv : Monitor → Prop) (base : Inv m)
    (looked : ∀ w, w.beats = m.beats → Inv w → (w.ticks + 1) % period = 0 →
      Inv { w with ticks := w.ticks + 1 }.look)
    (skipped : ∀ w, Inv w → (w.ticks + 1) % period ≠ 0 → Inv { w with ticks := w.ticks + 1 })
    {signals : List Signal} (silent : signals.count .beat = 0) : Inv (watch period m signals) := by
  induction signals using List.reverseRecOn with
  | nil => exact base
  | append_singleton signals signal ih =>
      rw [List.count_append] at silent
      have quiet := Nat.eq_zero_of_add_eq_zero_right silent
      rw [watch_append_singleton]
      cases signal with
      | beat => simp at silent
      | tick =>
          by_cases due : ((watch period m signals).ticks + 1) % period = 0
          · rw [next_tick_of_look due]
            apply looked _ _ (ih quiet) due
            rw [(watch_counts period m signals).1, quiet, Nat.add_zero]
          · rw [next_tick_of_not_look due]
            exact skipped _ (ih quiet) due

theorem alarms_le_of_silent (m : Monitor) {signals : List Signal} (silent : signals.count .beat = 0) :
    (watch period m signals).alarms ≤ m.alarms + 1 := by
  have bound : (watch period m signals).alarms = m.alarms ∨
      (watch period m signals).alarms = m.alarms + 1 ∧ (watch period m signals).alarmed = true ∧
        (watch period m signals).saved = (watch period m signals).beats := by
    apply silent_invariant (fun w => w.alarms = m.alarms ∨
      w.alarms = m.alarms + 1 ∧ w.alarmed = true ∧ w.saved = w.beats) (Or.inl rfl) _ _ silent
    · intro w _ inv _
      rw [look_alarms, look_alarmed, look_saved, look_beats]
      rcases inv with none | ⟨one, alarmed, still⟩
      · by_cases raised : w.saved = w.beats ∧ w.alarmed = false
        · exact Or.inr ⟨(if_pos raised).trans (congrArg (· + 1) none), decide_eq_true raised.1, rfl⟩
        · exact Or.inl ((if_neg raised).trans none)
      · exact Or.inr ⟨(if_neg (by simp [alarmed])).trans one, decide_eq_true still, rfl⟩
    · intro w inv _
      exact inv
  omega

structure Silence (m w : Monitor) (looks : Nat) : Prop where
  alarms : m.alarms ≤ w.alarms
  unlooked : looks = 0 → w.saved = m.saved ∧ w.alarmed = m.alarmed
  looked : 0 < looks → w.saved = w.beats ∧ (w.alarmed = true → m.alarms < w.alarms)
  again : 1 < looks → w.alarmed = true

def Fresh (m : Monitor) : Prop := m.saved < m.beats ∨ m.alarmed = false

theorem fresh_of_start_or_beat {signals : List Signal}
    (last : signals = [] ∨ ∃ earlier, signals = earlier ++ [.beat]) : (watch period init signals).Fresh := by
  rcases last with rfl | ⟨earlier, rfl⟩
  · exact Or.inr rfl
  · rw [watch_append_singleton]
    exact Or.inl (Nat.lt_succ_of_le (saved_le_beats earlier))

theorem Silence.start (m : Monitor) : Silence m m 0 where
  alarms := le_rfl
  unlooked _ := ⟨rfl, rfl⟩
  looked none := absurd none (lt_irrefl 0)
  again none := absurd none (by decide)

theorem look_raises {w : Monitor} (still : w.saved = w.beats) (clear : w.alarmed = false) :
    w.alarms < w.look.alarms := by
  rw [look_alarms, if_pos ⟨still, clear⟩]
  exact Nat.lt_succ_self w.alarms

theorem alarms_le_look (w : Monitor) : w.alarms ≤ w.look.alarms := by
  rw [look_alarms]
  split
  · exact Nat.le_succ w.alarms
  · exact le_rfl

theorem Silence.look {w : Monitor} {looks : Nat} (fresh : m.Fresh) (beats : w.beats = m.beats)
    (inv : Silence m w looks) : Silence m w.look (looks + 1) where
  alarms := inv.alarms.trans (alarms_le_look w)
  unlooked none := absurd none looks.succ_ne_zero
  looked _ := by
    rw [look_saved, look_beats, look_alarmed]
    refine ⟨rfl, fun now => ?_⟩
    have still : w.saved = w.beats := of_decide_eq_true now
    cases alarmed : w.alarmed with
    | false => exact inv.alarms.trans_lt (look_raises still alarmed)
    | true =>
        apply lt_of_lt_of_le _ (alarms_le_look w)
        rcases Nat.eq_zero_or_pos looks with none | some
        · obtain ⟨saved, same⟩ := inv.unlooked none
          rcases fresh with behind | clear
          · exact absurd (saved.symm.trans (still.trans beats)) behind.ne
          · exact absurd (same.symm.trans alarmed) (by simp [clear])
        · exact (inv.looked some).2 alarmed
  again twice := by
    rw [look_alarmed, (inv.looked (Nat.lt_of_succ_lt_succ twice)).1]
    exact decide_eq_true rfl

theorem Silence.tick {w : Monitor} {looks : Nat} (inv : Silence m w looks) (ticks : Nat) :
    Silence m { w with ticks := ticks } looks :=
  ⟨inv.alarms, inv.unlooked, inv.looked, inv.again⟩

/-- Two periods without a beat raise an alarm, and it stands. -/
theorem alarmed_of_silent (positive : 0 < period) (fresh : m.Fresh) {signals : List Signal}
    (silent : signals.count .beat = 0) (long : 2 * period ≤ signals.count .tick) :
    (watch period m signals).alarmed = true ∧ m.alarms < (watch period m signals).alarms := by
  have silence : Silence m (watch period m signals)
      ((watch period m signals).ticks / period - m.ticks / period) ∧ m.ticks ≤ (watch period m signals).ticks := by
    apply silent_invariant (fun w => Silence m w (w.ticks / period - m.ticks / period) ∧ m.ticks ≤ w.ticks) _ _ _ silent
    · rw [Nat.sub_self]
      exact ⟨Silence.start m, le_rfl⟩
    · rintro w beats ⟨inv, later⟩ due
      have looks : (w.ticks + 1) / period - m.ticks / period = w.ticks / period - m.ticks / period + 1 := by
        rw [Nat.succ_div, if_pos (Nat.dvd_of_mod_eq_zero due), Nat.sub_add_comm (Nat.div_le_div_right later)]
      rw [look_ticks, looks]
      exact ⟨(inv.tick _).look fresh beats, Nat.le_succ_of_le later⟩
    · rintro w ⟨inv, later⟩ early
      have looks : (w.ticks + 1) / period = w.ticks / period := by
        rw [Nat.succ_div, if_neg fun whole => early (Nat.mod_eq_zero_of_dvd whole), Nat.add_zero]
      rw [looks]
      exact ⟨inv.tick _, Nat.le_succ_of_le later⟩
  have looks : m.ticks / period + 2 ≤ (watch period m signals).ticks / period := by
    rw [(watch_counts period m signals).2, ← Nat.add_mul_div_right _ _ positive]
    exact Nat.div_le_div_right (Nat.add_le_add_left long _)
  have alarmed := silence.1.again (by omega)
  exact ⟨alarmed, (silence.1.looked (by omega)).2 alarmed⟩

end Monitor

end LinuxInterview.Library
