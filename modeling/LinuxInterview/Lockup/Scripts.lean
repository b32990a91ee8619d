import LinuxInterview.Lockup.Sessions

/-!
# Commands that run undisturbed

What a sequence of commands sets up when no timer fires and no thread runs in between.
-/

namespace LinuxInterview.Lockup
open Library

/-- What the commands say of the detector. -/
structure Setup where
  thresh : Int32
  running : Bool
  threads : Nat → Bool

def Setup.init : Setup := ⟨5, false, fun _ => false⟩

def Setup.next (mask : CpuMask) (σ : Setup) (w : Write) : Setup :=
  match w.command with
  | .wdOn => if σ.running then σ else { σ with
      running := true
      threads := fun cpu => cpu ∈ mask.onlineCpus && w.created cpu }
  | .wdOff => { σ with running := false, threads := fun _ => false }
  | .thresh a => { σ with thresh := a }
  | _ => σ

def Command.generates : Command → Bool
  | .soft _ _ | .hard _ _ | .hung _ => true
  | _ => false

namespace LockupLab

def setup (s : LockupLab) : Setup := ⟨s.watchdog.thresh, s.watchdog.wdRunning, s.watchdog.wdThread⟩

variable {mask : CpuMask} {s s' s'' : LockupLab} {cpu : Nat} {created : Nat → Bool}

/-! ## The loops of `wd_start` and `wd_stop` -/

/-- The second state follows from the first while no command is written. -/
def Leads (mask : CpuMask) (s s' : LockupLab) : Prop :=
  ∃ events, Run (Fires (step mask)) s events s' ∧ writes events = []

theorem Leads.refl (s : LockupLab) : Leads mask s s := ⟨[], .nil, rfl⟩

theorem Leads.trans (first : Leads mask s s') (second : Leads mask s' s'') : Leads mask s s'' := by
  obtain ⟨events, run, none⟩ := first
  obtain ⟨events', run', none'⟩ := second
  refine ⟨events ++ events', run.append run', ?_⟩
  rw [writes_append, none, none', List.append_nil]

theorem Leads.of_step {event : LabEvent} (fired : step mask s event = some s')
    (none : event.write? = none) : Leads mask s s' :=
  ⟨[event], .snoc .nil fired, writes_singleton none⟩

structure Kept (s s' : LockupLab) : Prop where
  clock : s'.clock = s.clock
  khungThread : s'.khungThread = s.khungThread
  exiting : s'.exiting = s.exiting
  generators : s'.generators = s.generators
  thresh : s'.watchdog.thresh = s.watchdog.thresh
  latches : s.watchdog.softReported = (fun _ => false) → s'.watchdog.softReported = fun _ => false

theorem Kept.refl (s : LockupLab) : Kept s s := ⟨rfl, rfl, rfl, rfl, rfl, id⟩

theorem Kept.trans (first : Kept s s') (second : Kept s' s'') : Kept s s'' where
  clock := second.clock.trans first.clock
  khungThread := second.khungThread.trans first.khungThread
  exiting := second.exiting.trans first.exiting
  generators := second.generators.trans first.generators
  thresh := second.thresh.trans first.thresh
  latches clear := second.latches (first.latches clear)

theorem startThread_kept (created : Nat → Bool) (cpu : Nat) (s : LockupLab) (phase : Phase) :
    Kept s { s.startThread created cpu with phase := phase } := by
  unfold startThread Watchdog.startThread
  split
  · refine ⟨rfl, rfl, rfl, rfl, rfl, fun clear => ?_⟩
    show Function.update s.watchdog.softReported cpu false = _
    rw [clear]
    exact Function.update_eq_self cpu _
  · exact ⟨rfl, rfl, rfl, rfl, rfl, id⟩

theorem create_loop (left : List Nat) (s : LockupLab) (here : s.phase = .creating left created) :
    ∃ s', Leads mask s s' ∧ Kept s s' ∧ s'.phase = .creating [] created ∧
      (∀ cpu, s'.watchdog.wdThread cpu ↔ s.watchdog.wdThread cpu ∨ cpu ∈ left ∧ created cpu) ∧
      ((∀ cpu, s.watchdog.wdThread cpu → s.threads cpu = .running) →
        ∀ cpu, s'.watchdog.wdThread cpu → s'.threads cpu = .running) := by
  induction left generalizing s with
  | nil => exact ⟨s, .refl s, .refl s, here, by simp, id⟩
  | cons cpu left ih =>
      obtain ⟨s', leads, kept, phase, owned, alive⟩ :=
        ih { s.startThread created cpu with phase := .creating left created } rfl
      have first : step mask s .proceed =
          some { s.startThread created cpu with phase := .creating left created } := by
        simp [step, proceed, here]
      refine ⟨s', (Leads.of_step first rfl).trans leads, (startThread_kept created cpu s _).trans kept,
        phase, fun c => ?_, fun before => alive fun c owned => ?_⟩
      · rw [owned c]
        show (s.watchdog.startThread created cpu).wdThread c ∨ _ ↔ _
        rw [startThread_wdThread, List.mem_cons]
        rcases eq_or_ne c cpu with rfl | other
        · tauto
        · tauto
      · show (if created cpu then Function.update s.threads cpu .running else s.threads) c = .running
        rcases (startThread_wdThread created s.watchdog cpu c).mp owned with old | ⟨rfl, yes⟩
        · split
          · rcases eq_or_ne c cpu with rfl | other
            · simp
            · rw [Function.update_of_ne other]
              exact before c old
          · exact before c old
        · simp [yes]

theorem arm_loop (left : List Nat) (s : LockupLab) (here : s.phase = .arming left) :
    ∃ s', Leads mask s s' ∧ Kept s s' ∧ s'.phase = .arming [] ∧
      s'.watchdog.wdThread = s.watchdog.wdThread ∧ s'.threads = s.threads ∧
      (∀ cpu ∈ left, s'.armed cpu ∧ s'.watchdog.touchTs cpu = s.nowSec) ∧
      ∀ cpu ∉ left, s'.armed cpu = s.armed cpu ∧ s'.watchdog.touchTs cpu = s.watchdog.touchTs cpu := by
  induction left generalizing s with
  | nil => exact ⟨s, .refl s, .refl s, here, rfl, rfl, by simp, fun _ _ => ⟨rfl, rfl⟩⟩
  | cons cpu left ih =>
      obtain ⟨s', leads, kept, phase, owned, alive, done, rest⟩ := ih { s with
        watchdog := s.watchdog.startHrtimerLocal (fun _ => s.nowSec) cpu
        armed := Function.update s.armed cpu true
        phase := .arming left } rfl
      have first : step mask s (.ipi cpu) = some { s with
          watchdog := s.watchdog.startHrtimerLocal (fun _ => s.nowSec) cpu
          armed := Function.update s.armed cpu true
          phase := .arming left } := by
        simp [step, ipi, here]
      have start : Kept s { s with
          watchdog := s.watchdog.startHrtimerLocal (fun _ => s.nowSec) cpu
          armed := Function.update s.armed cpu true
          phase := .arming left } := ⟨rfl, rfl, rfl, rfl, rfl, id⟩
      refine ⟨s', (Leads.of_step first rfl).trans leads, start.trans kept, phase, owned, alive,
        fun c member => ?_, fun c outside => ?_⟩
      · by_cases later : c ∈ left
        · exact done c later
        · obtain rfl := (List.mem_cons.mp member).resolve_right later
          obtain ⟨armed, touched⟩ := rest c later
          rw [armed, touched]
          simp [Watchdog.startHrtimerLocal]
      · obtain ⟨other, later⟩ := not_or.mp (mt List.mem_cons.mpr outside)
        obtain ⟨armed, touched⟩ := rest c later
        rw [armed, touched]
        simp [Watchdog.startHrtimerLocal, other]

theorem cancel_loop (left : List Nat) (s : LockupLab) (here : s.phase = .cancelling left) :
    ∃ s', Leads mask s s' ∧ Kept s s' ∧ s'.phase = .cancelling [] := by
  induction left generalizing s with
  | nil => exact ⟨s, .refl s, .refl s, here⟩
  | cons cpu left ih =>
      obtain ⟨s', leads, kept, phase⟩ :=
        ih { s with armed := Function.update s.armed cpu false, phase := .cancelling left } rfl
      have first : step mask s .proceed =
          some { s with armed := Function.update s.armed cpu false, phase := .cancelling left } := by
        simp [step, proceed, here]
      exact ⟨s', (Leads.of_step first rfl).trans leads, ⟨kept.1, kept.2, kept.3, kept.4, kept.5, kept.6⟩,
        phase⟩

theorem stop_one (left : List Nat) (s : LockupLab) (here : s.phase = .stopping (cpu :: left)) :
    ∃ s', Leads mask s s' ∧ Kept s s' ∧ s'.phase = .stopping left := by
  by_cases owned : s.watchdog.wdThread cpu
  · let asked : LockupLab := { s with
      watchdog := { s.watchdog with wdThread := Function.update s.watchdog.wdThread cpu false }
      threads := Function.update s.threads cpu .stopping
      phase := .joining cpu left }
    let returned : LockupLab := { asked with threads := Function.update asked.threads cpu .absent }
    have stop : step mask s .proceed = some asked := by simp [step, proceed, here, owned, asked]
    have gone : step mask asked (.threadReturns cpu) = some returned := by
      simp [step, asked, returned]
    have join : step mask returned .proceed = some { returned with phase := .stopping left } := by
      simp [step, proceed, returned, asked]
    exact ⟨_, ((Leads.of_step stop rfl).trans (.of_step gone rfl)).trans (.of_step join rfl),
      ⟨rfl, rfl, rfl, rfl, rfl, id⟩, rfl⟩
  · have skipped : step mask s .proceed = some { s with phase := .stopping left } := by
      simp [step, proceed, here, owned]
    exact ⟨_, Leads.of_step skipped rfl, ⟨rfl, rfl, rfl, rfl, rfl, id⟩, rfl⟩

theorem stop_loop (left : List Nat) (s : LockupLab) (here : s.phase = .stopping left) :
    ∃ s', Leads mask s s' ∧ Kept s s' ∧ s'.phase = .stopping [] := by
  induction left generalizing s with
  | nil => exact ⟨s, .refl s, .refl s, here⟩
  | cons cpu left ih =>
      obtain ⟨middle, leads, kept, phase⟩ := stop_one left s here
      obtain ⟨s', leads', kept', phase'⟩ := ih middle phase
      exact ⟨s', leads.trans leads', kept.trans kept', phase'⟩

/-- `wd_stop` up to where it clears `wd_running`. -/
theorem wdStop_loops (s : LockupLab) (here : s.phase = .cancelling mask.onlineCpus) :
    ∃ s', Leads mask s s' ∧ Kept s s' ∧ s'.phase = .stopping [] := by
  obtain ⟨s₁, leads₁, kept₁, here₁⟩ := cancel_loop mask.onlineCpus s here
  have enter : step mask s₁ .proceed = some { s₁ with phase := .stopping mask.onlineCpus } := by
    simp [step, proceed, here₁]
  obtain ⟨s₂, leads₂, kept₂, here₂⟩ :=
    stop_loop mask.onlineCpus { s₁ with phase := .stopping mask.onlineCpus } rfl
  have entered : Kept s { s₁ with phase := .stopping mask.onlineCpus } :=
    ⟨kept₁.clock, kept₁.khungThread, kept₁.exiting, kept₁.generators, kept₁.thresh, kept₁.latches⟩
  exact ⟨s₂, (leads₁.trans (.of_step enter rfl)).trans leads₂, entered.trans kept₂, here₂⟩

/-! ## Whole commands -/

def Performs (mask : CpuMask) (s : LockupLab) (w : Write) (s' : LockupLab) : Prop :=
  ∃ events, Run (Fires (step mask)) s events s' ∧ writes events = [w]

theorem Performs.of_leads {w : Write} (idle : s.phase = .idle)
    (leads : Leads mask (s.llWrite mask w) s') : Performs mask s w s' := by
  obtain ⟨events, run, none⟩ := leads
  have written : Fires (step mask) s (.write w) (s.llWrite mask w) := by simp [Fires, step, idle]
  refine ⟨.write w :: events, run.cons written, ?_⟩
  show w :: writes events = [w]
  rw [none]

/-- Between two commands, none of which any timer has disturbed. -/
structure Calm (mask : CpuMask) (s : LockupLab) : Prop where
  inv : Inv mask s
  idle : s.phase = .idle
  khung : s.khungThread ≠ .error
  latches : s.watchdog.softReported = fun _ => false
  armed : s.watchdog.wdRunning → ∀ cpu ∈ mask.onlineCpus,
    s.armed cpu ∧ s.watchdog.touchTs cpu = s.nowSec
  alive : ∀ cpu, s.watchdog.wdThread cpu → s.threads cpu = .running

theorem Calm.staying (calm : Calm mask s) : s.exiting = false := by
  have phase := calm.inv.phase
  rwa [calm.idle] at phase

theorem Calm.no_threads (calm : Calm mask s) (quiet : s.watchdog.wdRunning = false) :
    s.watchdog.wdThread = fun _ => false := by
  funext cpu
  rw [Bool.eq_false_iff]
  intro owned
  have running := ((calm.inv.settled calm.idle).owned cpu owned).2
  rw [quiet] at running
  contradiction

structure Performed (mask : CpuMask) (s : LockupLab) (w : Write) (s' : LockupLab) : Prop where
  performs : Performs mask s w s'
  calm : Calm mask s'
  setup : s'.setup = s.setup.next mask w
  clock : s'.clock = s.clock
  generators : s.generators <+: s'.generators
  generated : w.command.generates → w.created 0 → s'.generators ≠ []

theorem Performs.inv {w : Write} (performs : Performs mask s w s') (inv : Inv mask s) : Inv mask s' := by
  obtain ⟨events, run, -⟩ := performs
  exact inv.run run

theorem performs_wdOn (calm : Calm mask s) (quiet : s.watchdog.wdRunning = false) (created : Nat → Bool) :
    ∃ s', Performed mask s ⟨.wdOn, created⟩ s' := by
  have written : s.llWrite mask ⟨.wdOn, created⟩ = { s with phase := .creating mask.onlineCpus created } := by
    simp [llWrite, wdStart, quiet]
  obtain ⟨s₁, leads₁, kept₁, here₁, owned₁, alive₁⟩ := create_loop mask.onlineCpus
    (s.llWrite mask ⟨.wdOn, created⟩) (by rw [written])
  rw [written] at kept₁ owned₁ alive₁
  have enter : step mask s₁ .proceed = some { s₁ with phase := .arming mask.onlineCpus } := by
    simp [step, proceed, here₁]
  obtain ⟨s₂, leads₂, kept₂, here₂, owned₂, alive₂, armed₂, -⟩ := arm_loop
    mask.onlineCpus { s₁ with phase := .arming mask.onlineCpus } rfl
  have leave : step mask s₂ .proceed =
      some { s₂ with watchdog := { s₂.watchdog with wdRunning := true }, phase := .idle } := by
    simp [step, proceed, here₂]
  have performs : Performs mask s ⟨.wdOn, created⟩
      { s₂ with watchdog := { s₂.watchdog with wdRunning := true }, phase := .idle } :=
    .of_leads calm.idle (((leads₁.trans (.of_step enter rfl)).trans leads₂).trans (.of_step leave rfl))
  have clock : s₂.clock = s₁.clock := kept₂.clock
  refine ⟨_, performs, ⟨performs.inv calm.inv, rfl, ?_, ?_, ?_, ?_⟩, ?_, ?_, ?_, by rintro ⟨⟩⟩
  · show s₂.khungThread ≠ .error
    rw [kept₂.khungThread, kept₁.khungThread]
    exact calm.khung
  · exact kept₂.latches (kept₁.latches calm.latches)
  · intro _ cpu online
    obtain ⟨armed, touched⟩ := armed₂ cpu online
    refine ⟨armed, touched.trans ?_⟩
    show UInt64.ofNat s₁.clock / _ = UInt64.ofNat s₂.clock / _
    rw [clock]
  · intro cpu owned
    show s₂.threads cpu = _
    rw [alive₂]
    refine alive₁ calm.alive cpu ?_
    exact (congrFun owned₂ cpu).symm.trans owned
  · have threads : s₂.watchdog.wdThread = fun cpu => decide (cpu ∈ mask.onlineCpus) && created cpu := by
      funext cpu
      rw [Bool.eq_iff_iff, congrFun owned₂ cpu, owned₁ cpu]
      simp [calm.no_threads quiet]
    show Setup.mk _ _ _ = Setup.next mask ⟨_, s.watchdog.wdRunning, _⟩ _
    rw [quiet, Setup.next, threads, kept₂.thresh, kept₁.thresh]
    rfl
  · show s₂.clock = _
    rw [clock, kept₁.clock]
  · show s.generators <+: s₂.generators
    rw [kept₂.generators, kept₁.generators]

theorem performs_wdOff (calm : Calm mask s) (running : s.watchdog.wdRunning) (created : Nat → Bool) :
    ∃ s', Performed mask s ⟨.wdOff, created⟩ s' := by
  have written : s.llWrite mask ⟨.wdOff, created⟩ = { s with phase := .cancelling mask.onlineCpus } := by
    simp [llWrite, wdStop, running]
  obtain ⟨s', leads, kept, here⟩ :=
    wdStop_loops (s.llWrite mask ⟨.wdOff, created⟩) (by rw [written])
  rw [written] at kept
  have staying : s'.exiting = false := by
    rw [kept.exiting]
    exact calm.staying
  have leave : step mask s' .proceed =
      some { s' with watchdog := { s'.watchdog with wdRunning := false }, phase := .idle } := by
    simp [step, proceed, here, afterWdStop, staying]
  have performs : Performs mask s ⟨.wdOff, created⟩
      { s' with watchdog := { s'.watchdog with wdRunning := false }, phase := .idle } :=
    .of_leads calm.idle (leads.trans (.of_step leave rfl))
  have khung : s'.khungThread ≠ .error := by
    rw [kept.khungThread]
    exact calm.khung
  have latches : s'.watchdog.softReported = fun _ => false := kept.latches calm.latches
  have settled := (performs.inv calm.inv).settled rfl
  have gone : ∀ cpu, s'.watchdog.wdThread cpu = false := by
    intro cpu
    rw [Bool.eq_false_iff]
    intro owned
    exact Bool.noConfusion (settled.owned cpu owned).2
  refine ⟨_, performs, ⟨performs.inv calm.inv, rfl, khung, latches, ?_, ?_⟩, ?_, ?_, ?_, by rintro ⟨⟩⟩
  · exact fun running => Bool.noConfusion running
  · intro cpu owned
    rw [gone cpu] at owned
    contradiction
  · show Setup.mk s'.watchdog.thresh _ s'.watchdog.wdThread = Setup.next mask ⟨_, _, _⟩ _
    rw [Setup.next, funext gone, kept.thresh]
  · exact kept.clock
  · show s.generators <+: s'.generators
    rw [kept.generators]

theorem performs_khungOff (calm : Calm mask s) (created : Nat → Bool) :
    ∃ s', Performed mask s ⟨.khungOff, created⟩ s' := by
  have quiet : ∀ {s'}, Performs mask s ⟨.khungOff, created⟩ s' → s'.phase = .idle →
      s'.khungThread = .null → s' = { s with khungThread := .null, khung := s'.khung } →
      Performed mask s ⟨.khungOff, created⟩ s' := by
    intro s' performs idle null same
    have inv := performs.inv calm.inv
    rw [same] at performs inv ⊢
    exact ⟨performs, ⟨inv, calm.idle, by simp, calm.latches, calm.armed, calm.alive⟩, rfl, rfl,
      List.prefix_rfl, by rintro ⟨⟩⟩
  cases thread : s.khungThread with
  | error => exact absurd thread calm.khung
  | null =>
      have here : (if s.exiting = true then Phase.unloaded else .idle) = s.phase := by
        rw [calm.staying, calm.idle, if_neg (by decide)]
      have written : s.llWrite mask ⟨.khungOff, created⟩ = s := by
        show s.stopKhung = s
        unfold stopKhung
        split
        case h_1 => rw [here]
        case h_2 error => simp [error] at thread
        case h_3 task => simp [task] at thread
      refine ⟨s, quiet (.of_leads calm.idle ?_) calm.idle thread ?_⟩
      · rw [written]
        exact .refl s
      · rw [← thread]
  | task =>
      let asked : LockupLab := { s with khung := .stopping, phase := .joiningKhung }
      let returned : LockupLab := { asked with khung := .absent }
      have written : s.llWrite mask ⟨.khungOff, created⟩ = asked := by
        simp [llWrite, stopKhung, thread, asked]
      have gone : step mask asked .khungReturns = some returned := by simp [step, asked, returned]
      have join : step mask returned .proceed =
          some { returned with khungThread := .null, phase := .idle } := by
        simp [step, proceed, returned, asked, calm.staying]
      refine ⟨{ returned with khungThread := .null, phase := .idle },
        quiet (.of_leads calm.idle ?_) rfl rfl ?_⟩
      · rw [written]
        exact (Leads.of_step gone rfl).trans (.of_step join rfl)
      · show LockupLab.mk _ _ _ _ _ _ _ _ _ _ _ _ = _
        rw [← calm.idle]

theorem performs_at_once {w : Write} (calm : Calm mask s) (secs timeout : Int32) (ptr : TaskPtr)
    (life : Life) (more : List Trig)
    (written : s.llWrite mask w = { s with
      watchdog := { s.watchdog with thresh := secs }
      hungTimeout := timeout
      khungThread := ptr
      khung := life
      generators := s.generators ++ more })
    (khung : ptr ≠ .error)
    (setup : s.setup.next mask w = ⟨secs, s.watchdog.wdRunning, s.watchdog.wdThread⟩)
    (generated : w.command.generates → w.created 0 → more ≠ []) : ∃ s', Performed mask s w s' := by
  have performs : Performs mask s w (s.llWrite mask w) := .of_leads calm.idle (.refl _)
  rw [written] at performs
  exact ⟨_, performs, ⟨performs.inv calm.inv, calm.idle, khung, calm.latches, calm.armed, calm.alive⟩,
    setup.symm, rfl, List.prefix_append _ _, fun generates yes => by simp [generated generates yes]⟩

theorem performs_trigger {w : Write} {kind cpu secs : Int32} (calm : Calm mask s)
    (written : s.llWrite mask w = s.trigger kind cpu secs (w.created 0))
    (setup : s.setup.next mask w = s.setup) : ∃ s', Performed mask s w s' := by
  by_cases yes : w.created 0
  · refine performs_at_once calm _ s.hungTimeout _ s.khung [⟨kind, cpu, secs⟩] ?_ calm.khung setup (by simp)
    rw [written, LockupLab.trigger, if_pos yes]
  · refine performs_at_once calm _ s.hungTimeout _ s.khung [] ?_ calm.khung setup fun _ yes' => absurd yes' yes
    rw [written, LockupLab.trigger, if_neg yes, List.append_nil]

theorem performs_khungOn {secs : Int32} (calm : Calm mask s) (created : Nat → Bool) (yes : created 0) :
    ∃ s', Performed mask s ⟨.khungOn secs, created⟩ s' := by
  cases thread : s.khungThread with
  | error => exact absurd thread calm.khung
  | null =>
      refine performs_at_once calm _ secs .task .running [] ?_ (by simp) rfl (by rintro ⟨⟩)
      simp [llWrite, khungOn, thread, yes]
  | task =>
      refine performs_at_once calm _ secs .task s.khung [] ?_ (by simp) rfl (by rintro ⟨⟩)
      simp only [llWrite, khungOn, thread, List.append_nil]

theorem performs_nothing {w : Write} (calm : Calm mask s) (written : s.llWrite mask w = s)
    (setup : s.setup.next mask w = s.setup) (idle : w.command.generates = false) :
    ∃ s', Performed mask s w s' := by
  refine performs_at_once calm _ s.hungTimeout _ s.khung [] ?_ calm.khung setup fun generates => ?_
  · rw [written, List.append_nil]
  · rw [idle] at generates
    contradiction

/-- Every command can run to its end, unless it calls `kthread_stop` for an error pointer. -/
theorem exists_performed (calm : Calm mask s) (w : Write)
    (khung : ∀ a, w.command = .khungOn a → w.created 0) : ∃ s', Performed mask s w s' := by
  obtain ⟨command, created⟩ := w
  cases command with
  | wdOn =>
      by_cases running : s.watchdog.wdRunning
      · exact performs_nothing calm (if_pos running) (if_pos running) rfl
      · exact performs_wdOn calm (Bool.eq_false_of_not_eq_true running) created
  | wdOff =>
      by_cases running : s.watchdog.wdRunning
      · exact performs_wdOff calm running created
      · have quiet := Bool.eq_false_of_not_eq_true running
        refine performs_nothing calm ?_ ?_ rfl
        · show s.wdStop mask = s
          rw [wdStop, if_neg running, afterWdStop, if_neg (by simp [calm.staying]), ← calm.idle]
        · rw [setup, quiet, calm.no_threads quiet]
          rfl
  | thresh a => 
      refine performs_at_once calm a s.hungTimeout _ s.khung [] ?_ calm.khung rfl (by rintro ⟨⟩)
      simp [llWrite]
  | khungOn a => exact performs_khungOn calm created (khung a rfl)
  | khungOff => exact performs_khungOff calm created
  | soft a b | hard a b => exact performs_trigger calm rfl rfl
  | hung a => exact performs_trigger calm rfl rfl
  | stat => exact performs_nothing calm rfl rfl rfl

theorem calm_loaded (mask : CpuMask) : Calm mask loaded where
  inv := inv_loaded
  idle := rfl
  khung := by simp [loaded]
  latches := rfl
  armed running := Bool.noConfusion running
  alive cpu owned := Bool.noConfusion owned

theorem exists_scripted (script : List Write) (calm : Calm mask s)
    (khung : ∀ w ∈ script, ∀ a, w.command = .khungOn a → w.created 0) :
    ∃ events s', Run (Fires (step mask)) s events s' ∧ writes events = script ∧ Calm mask s' ∧
      s'.setup = script.foldl (Setup.next mask) s.setup ∧ s'.clock = s.clock ∧
      s.generators <+: s'.generators ∧
      ((∃ w ∈ script, w.command.generates ∧ w.created 0) → s'.generators ≠ []) := by
  induction script generalizing s with
  | nil => exact ⟨[], s, .nil, rfl, calm, rfl, rfl, List.prefix_rfl, by simp⟩
  | cons w script ih =>
      obtain ⟨middle, performed⟩ := exists_performed calm w (khung w List.mem_cons_self)
      obtain ⟨events, run, written⟩ := performed.performs
      obtain ⟨events', s', run', written', calm', setup, clock, generators, generated⟩ :=
        ih performed.calm fun w' later => khung w' (List.mem_cons_of_mem w later)
      refine ⟨events ++ events', s', run.append run', ?_, calm', ?_, clock.trans performed.clock,
        performed.generators.trans generators, ?_⟩
      · rw [writes_append, written, written', List.singleton_append]
      · rw [setup, performed.setup]
        rfl
      · rintro ⟨w', member, generates, yes⟩
        rcases List.mem_cons.mp member with rfl | later
        · intro none
          exact performed.generated generates yes (List.prefix_nil.mp (none ▸ generators))
        · exact generated ⟨w', later, generates, yes⟩

/-! ## Unloading -/

theorem unload_khung (khung : s.khungThread ≠ .error) (exiting : s.exiting = true) :
    ∃ s', Leads mask s.stopKhung s' ∧ s'.phase = .unloaded ∧ s'.generators = s.generators := by
  unfold stopKhung
  split
  case h_1 => exact ⟨_, .refl _, if_pos exiting, rfl⟩
  case h_2 error => exact absurd error khung
  case h_3 =>
    let asked : LockupLab := { s with khung := .stopping, phase := .joiningKhung }
    let returned : LockupLab := { asked with khung := .absent }
    have gone : step mask asked .khungReturns = some returned := by simp [step, asked, returned]
    have join : step mask returned .proceed = some { returned with phase := .unloaded } := by
      simp [step, proceed, returned, asked, exiting]
    exact ⟨_, (Leads.of_step gone rfl).trans (.of_step join rfl), rfl, rfl⟩

theorem exists_unloaded (calm : Calm mask s) :
    ∃ s', Leads mask s s' ∧ s'.phase = .unloaded ∧ s'.generators = s.generators := by
  have exit : step mask s .exit = some (s.llExit mask) := by simp [step, calm.idle]
  by_cases running : s.watchdog.wdRunning
  · have written : s.llExit mask = { s with exiting := true, phase := .cancelling mask.onlineCpus } := by
      simp [llExit, wdStop, running]
    obtain ⟨s₁, leads₁, kept, here₁⟩ := wdStop_loops (s.llExit mask) (by rw [written])
    rw [written] at kept
    have khung : s₁.khungThread ≠ .error := by
      rw [kept.khungThread]
      exact calm.khung
    have leave : step mask s₁ .proceed =
        some (stopKhung { s₁ with watchdog := { s₁.watchdog with wdRunning := false } }) := by
      simp [step, proceed, here₁, afterWdStop, kept.exiting]
    obtain ⟨s₂, leads₂, here₂, same⟩ := unload_khung
      (s := { s₁ with watchdog := { s₁.watchdog with wdRunning := false } }) khung kept.exiting
    refine ⟨s₂, ?_, here₂, ?_⟩
    · exact ((Leads.of_step exit rfl).trans leads₁).trans ((Leads.of_step leave rfl).trans leads₂)
    · rw [same, kept.generators]
  · have written : s.llExit mask = stopKhung { s with exiting := true } := by
      simp [llExit, wdStop, running, afterWdStop]
    obtain ⟨s', leads, here, same⟩ :=
      unload_khung (s := { s with exiting := true }) calm.khung rfl
    rw [← written] at leads
    exact ⟨s', (Leads.of_step exit rfl).trans leads, here, same⟩

end LockupLab

end LinuxInterview.Lockup
