import LinuxInterview.Lockup.Scripts

/-!
# What survives the unloading
-/

namespace LinuxInterview.Lockup
open Library

namespace LockupLab

variable {mask : CpuMask} {s s' : LockupLab} {event : LabEvent} {events : List LabEvent}

def Gone (s : LockupLab) : Prop := Stopped s ∧ s.generators = []

theorem stopKhung_generators (s : LockupLab) : s.stopKhung.generators = s.generators := by
  unfold stopKhung
  split <;> rfl

theorem afterWdStop_generators (s : LockupLab) : s.afterWdStop.generators = s.generators := by
  unfold afterWdStop
  split
  · exact stopKhung_generators s
  · rfl

theorem wdStop_generators (s : LockupLab) : (s.wdStop mask).generators = s.generators := by
  unfold wdStop
  split
  · rfl
  · exact afterWdStop_generators s

theorem llWrite_generators {w : Write} (harmless : w.command.generates = false) :
    (s.llWrite mask w).generators = s.generators := by
  unfold llWrite
  split
  case h_1 =>
    unfold wdStart
    split <;> rfl
  case h_2 => exact wdStop_generators s
  case h_4 =>
    unfold khungOn
    simp only
    split
    · split <;> rfl
    · rfl
    · rfl
  case h_5 => exact stopKhung_generators s
  case h_3 | h_9 => rfl
  case h_6 command | h_7 command | h_8 command =>
    rw [command] at harmless
    contradiction

theorem proceed_generators (goes : Proceeds mask s s') : s'.generators = s.generators := by
  cases goes with
  | stopped => exact afterWdStop_generators _
  | _ => rfl

theorem generators_step (none : s.generators = [])
    (harmless : ∀ w, event = .write w → w.command.generates = false)
    (fired : Fires (step mask) s event s') : s'.generators = [] := by
  cases moves fired with
  | write => exact (llWrite_generators (harmless _ rfl)).trans none
  | exit => exact (wdStop_generators _).trans none
  | proceed goes => exact (proceed_generators goes).trans none
  | generatorReturns =>
      simp only [none]
      rfl
  | _ => exact none

theorem generators_of_run (run : LabRuns mask events s)
    (harmless : ∀ w ∈ writes events, w.command.generates = false) : s.generators = [] := by
  refine run.history_invariant (fun events s => (∀ w ∈ writes events, w.command.generates = false) →
    s.generators = []) (fun _ => rfl) ?_ harmless
  intro events before event after _ ih fired harmless
  rw [writes_append] at harmless
  refine generators_step (ih fun w member => harmless w (List.mem_append_left _ member)) ?_ fired
  rintro w rfl
  exact harmless w (List.mem_append_right _ (by simp [writes, LabEvent.write?]))

theorem nothing_runs_after_exit_iff (mask : CpuMask) (script : List Command) :
    (∀ events s, LabRuns mask events s → (writes events).map Write.command = script →
      s.phase = .unloaded → Gone s) ↔ ∀ command ∈ script, command.generates = false := by
  constructor
  · intro safe command member
    rw [Bool.eq_false_iff]
    intro generates
    let plan : List Write := script.map fun command => ⟨command, fun _ => true⟩
    obtain ⟨events, s, run, written, calm, -, -, -, generated⟩ :=
      exists_scripted plan (calm_loaded mask) (by simp [plan])
    obtain ⟨s', ⟨events', run', none⟩, unloaded, same⟩ := exists_unloaded calm
    have whole : (writes (events ++ events')).map Write.command = script := by
      rw [writes_append, written, none, List.append_nil]
      simp [plan, Function.comp_def]
    have gone := safe _ s' (run.append run') whole unloaded
    refine generated ⟨⟨command, fun _ => true⟩, ?_, generates, rfl⟩ (same ▸ gone.2)
    exact List.mem_map_of_mem member
  · intro harmless events s run written unloaded
    refine ⟨(inv_of_run run).stopped unloaded, generators_of_run run fun w member => harmless _ ?_⟩
    rw [← written]
    exact List.mem_map_of_mem member

/-- `soft 3 25`, and `rmmod` while the thread is still spinning on its CPU. -/
theorem generator_outlives_module : ¬ ∀ events s, LabRuns ⟨8, fun _ => true⟩ events s →
    (writes events).map Write.command = [.soft 3 25] → s.phase = .unloaded → Gone s := by
  intro safe
  have run : LabRuns ⟨8, fun _ => true⟩ [.write ⟨.soft 3 25, fun _ => true⟩, .exit]
      { loaded with generators := [⟨0, 3, 25⟩], exiting := true, phase := .unloaded } :=
    run_of_foldlM rfl
  exact List.cons_ne_nil _ _ (safe _ _ run rfl rfl).2

end LockupLab

end LinuxInterview.Lockup
