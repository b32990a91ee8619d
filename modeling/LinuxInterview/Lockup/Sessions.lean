import LinuxInterview.Lockup.Commands

/-!
# What is alive in which phase
-/

namespace LinuxInterview.Lockup
open Library

variable {mask : CpuMask} {s s' : LockupLab} {cpu : Nat} {event : LabEvent}

namespace Phase

def mayFire (running : Bool) : Phase → Nat → Prop
  | .idle, _ | .joiningKhung, _ => running
  | .creating _ _, _ | .stopping _, _ | .joining _ _, _ | .unloaded, _ => False
  | .arming left, cpu => cpu ∉ left
  | .cancelling left, cpu => cpu ∈ left
  | .oops, _ => True

def mayOwn (running : Bool) : Phase → Nat → Prop
  | .idle, _ | .joiningKhung, _ => running
  | .creating left _, cpu => cpu ∉ left
  | .arming _, _ | .cancelling _, _ | .oops, _ => True
  | .stopping left, cpu | .joining _ left, cpu => cpu ∈ left
  | .unloaded, _ => False

def fits (mask : CpuMask) (running exiting : Bool) : Phase → Prop
  | .idle => exiting = false
  | .creating left _ | .arming left =>
      running = false ∧ exiting = false ∧ left.Nodup ∧ left ⊆ mask.onlineCpus
  | .cancelling _ | .stopping _ | .joining _ _ => running = true
  | .joiningKhung => exiting = true → running = false
  | .unloaded => running = false
  | .oops => True

end Phase

namespace LockupLab

/-! ## The moves -/

inductive Proceeds (mask : CpuMask) (s : LockupLab) : LockupLab → Prop
  | create {cpu : Nat} {left : List Nat} {created : Nat → Bool} :
      s.phase = .creating (cpu :: left) created →
      Proceeds mask s { s.startThread created cpu with phase := .creating left created }
  | created {created : Nat → Bool} : s.phase = .creating [] created →
      Proceeds mask s { s with phase := .arming mask.onlineCpus }
  | armed : s.phase = .arming [] →
      Proceeds mask s { s with watchdog := { s.watchdog with wdRunning := true }, phase := .idle }
  | cancel {cpu : Nat} {left : List Nat} : s.phase = .cancelling (cpu :: left) →
      Proceeds mask s { s with armed := Function.update s.armed cpu false, phase := .cancelling left }
  | cancelled : s.phase = .cancelling [] →
      Proceeds mask s { s with phase := .stopping mask.onlineCpus }
  | stop {cpu : Nat} {left : List Nat} : s.phase = .stopping (cpu :: left) →
      s.watchdog.wdThread cpu →
      Proceeds mask s { s with
        watchdog := { s.watchdog with wdThread := Function.update s.watchdog.wdThread cpu false }
        threads := Function.update s.threads cpu .stopping
        phase := .joining cpu left }
  | skip {cpu : Nat} {left : List Nat} : s.phase = .stopping (cpu :: left) →
      ¬ s.watchdog.wdThread cpu → Proceeds mask s { s with phase := .stopping left }
  | join {cpu : Nat} {left : List Nat} : s.phase = .joining cpu left → s.threads cpu = .absent →
      Proceeds mask s { s with phase := .stopping left }
  | stopped : s.phase = .stopping [] →
      Proceeds mask s { s with watchdog := { s.watchdog with wdRunning := false } }.afterWdStop
  | unload : s.phase = .joiningKhung → s.khung = .absent → s.exiting = true →
      Proceeds mask s { s with phase := .unloaded }
  | leave : s.phase = .joiningKhung → s.khung = .absent → s.exiting = false →
      Proceeds mask s { s with khungThread := .null, phase := .idle }

theorem proceeds (fired : s.proceed mask = some s') : Proceeds mask s s' := by
  unfold proceed at fired
  split at fired
  case h_1 here =>
    cases fired
    exact .create here
  case h_2 here =>
    cases fired
    exact .created here
  case h_3 here =>
    cases fired
    exact .armed here
  case h_4 here =>
    cases fired
    exact .cancel here
  case h_5 here =>
    cases fired
    exact .cancelled here
  case h_6 here =>
    split at fired
    case isTrue owned =>
      cases fired
      exact .stop here owned
    case isFalse none =>
      cases fired
      exact .skip here none
  case h_7 here =>
    obtain ⟨gone, fired⟩ := Option.ite_none_right_eq_some.mp fired
    cases fired
    exact .join here gone
  case h_8 here =>
    cases fired
    exact .stopped here
  case h_9 here =>
    obtain ⟨gone, fired⟩ := Option.ite_none_right_eq_some.mp fired
    split at fired
    case isTrue exiting =>
      cases fired
      exact .unload here gone exiting
    case isFalse staying =>
      cases fired
      exact .leave here gone (Bool.eq_false_of_not_eq_true staying)
  all_goals cases fired

inductive Moves (mask : CpuMask) (s : LockupLab) : LabEvent → LockupLab → Prop
  | write {w : Write} : s.phase = .idle → Moves mask s (.write w) (s.llWrite mask w)
  | exit : s.phase = .idle → Moves mask s .exit (s.llExit mask)
  | proceed {s' : LockupLab} : Proceeds mask s s' → Moves mask s .proceed s'
  | ipi {cpu : Nat} {left : List Nat} : s.phase = .arming left → cpu ∈ left →
      Moves mask s (.ipi cpu) { s with
        watchdog := s.watchdog.startHrtimerLocal (fun _ => s.nowSec) cpu
        armed := Function.update s.armed cpu true
        phase := .arming (left.erase cpu) }
  | timer {cpu : Nat} : s.armed cpu →
      Moves mask s (.timer cpu) { s with watchdog := s.watchdog.wdTimerFn mask cpu s.nowSec }
  | thread {cpu : Nat} : s.threads cpu ≠ .absent → Moves mask s (.thread cpu) { s with
      watchdog := s.watchdog.wdThreadFn cpu s.nowSec
      refreshed := Function.update s.refreshed cpu (some s.clock) }
  | threadReturns {cpu : Nat} : s.threads cpu = .stopping →
      Moves mask s (.threadReturns cpu) { s with threads := Function.update s.threads cpu .absent }
  | khungReturns : s.khung = .stopping → Moves mask s .khungReturns { s with khung := .absent }
  | generatorReturns {i : Nat} :
      Moves mask s (.generatorReturns i) { s with generators := s.generators.eraseIdx i }
  | pass {ns : Nat} : Moves mask s (.pass ns) { s with clock := s.clock + ns }

theorem moves (fired : Fires (step mask) s event s') : Moves mask s event s' := by
  cases event with
  | write w =>
      simp only [Fires, step] at fired
      split at fired
      case h_1 idle =>
        cases fired
        exact .write idle
      case h_2 => cases fired
  | exit =>
      simp only [Fires, step] at fired
      split at fired
      case h_1 idle =>
        cases fired
        exact .exit idle
      case h_2 => cases fired
  | proceed => exact .proceed (proceeds fired)
  | ipi cpu =>
      simp only [Fires, step, ipi] at fired
      split at fired
      case h_1 left here =>
        obtain ⟨member, fired⟩ := Option.ite_none_right_eq_some.mp fired
        cases fired
        exact .ipi here member
      case h_2 => cases fired
  | timer cpu =>
      obtain ⟨armed, fired⟩ := Option.ite_none_right_eq_some.mp fired
      cases fired
      exact .timer armed
  | thread cpu =>
      obtain ⟨alive, fired⟩ := Option.ite_none_left_eq_some.mp fired
      cases fired
      exact .thread alive
  | threadReturns cpu =>
      obtain ⟨asked, fired⟩ := Option.ite_none_right_eq_some.mp fired
      cases fired
      exact .threadReturns asked
  | khungReturns =>
      obtain ⟨asked, fired⟩ := Option.ite_none_right_eq_some.mp fired
      cases fired
      exact .khungReturns asked
  | generatorReturns i =>
      cases fired
      exact .generatorReturns
  | pass ns =>
      cases fired
      exact .pass

/-! ## The invariant -/

structure Inv (mask : CpuMask) (s : LockupLab) : Prop where
  phase : s.phase.fits mask s.watchdog.wdRunning s.exiting
  armed : ∀ cpu, s.armed cpu → cpu ∈ mask.onlineCpus ∧ s.phase.mayFire s.watchdog.wdRunning cpu
  owned : ∀ cpu, s.watchdog.wdThread cpu →
    cpu ∈ mask.onlineCpus ∧ s.phase.mayOwn s.watchdog.wdRunning cpu
  running : ∀ cpu, s.threads cpu = .running → s.watchdog.wdThread cpu
  stopping : ∀ cpu, s.threads cpu = .stopping → ∃ left, s.phase = .joining cpu left
  khung : s.khung = .running → s.khungThread = .task ∧ s.phase ≠ .unloaded
  khungStopping : s.khung = .stopping → s.phase = .joiningKhung

theorem inv_loaded : Inv mask loaded where
  phase := rfl
  armed := by simp [loaded]
  owned := by simp [loaded, Watchdog.loaded]
  running := by simp [loaded]
  stopping := by simp [loaded]
  khung := by simp [loaded]
  khungStopping := by simp [loaded]

theorem Inv.joins (inv : Inv mask s) (elsewhere : ∀ c left, s.phase ≠ .joining c left) (c : Nat) :
    s.threads c ≠ .stopping := by
  intro life
  obtain ⟨left, joining⟩ := inv.stopping c life
  exact elsewhere c left joining

theorem Inv.khung_joins (inv : Inv mask s) (elsewhere : s.phase ≠ .joiningKhung) : s.khung ≠ .stopping :=
  fun life => elsewhere (inv.khungStopping life)

theorem Inv.unarmed (inv : Inv mask s) (silent : ¬ s.phase.mayFire s.watchdog.wdRunning cpu) :
    ¬ s.armed cpu :=
  fun armed => silent (inv.armed cpu armed).2

theorem onlineCpus_nodup (mask : CpuMask) : mask.onlineCpus.Nodup := mask.onlineCpus_sorted.nodup

/-- Nothing of the module can run, its generators apart. -/
structure Stopped (s : LockupLab) : Prop where
  armed : ∀ cpu, s.armed cpu = false
  threads : ∀ cpu, s.threads cpu = .absent
  khung : s.khung = .absent

theorem Inv.stopped (inv : Inv mask s) (unloaded : s.phase = .unloaded) : Stopped s := by
  constructor
  · intro cpu
    rw [Bool.eq_false_iff]
    exact inv.unarmed (by rw [unloaded]; exact id)
  · intro cpu
    cases life : s.threads cpu with
    | absent => rfl
    | running =>
        have owns := (inv.owned cpu (inv.running cpu life)).2
        rw [unloaded] at owns
        exact owns.elim
    | stopping => exact absurd life (inv.joins (by simp [unloaded]) cpu)
  · cases life : s.khung with
    | absent => rfl
    | running => exact absurd unloaded (inv.khung life).2
    | stopping => exact absurd life (inv.khung_joins (by simp [unloaded]))

/-! ## Commands -/

/-- The invariant between two commands, and where `wd_stop` has done its work. -/
structure Settled (mask : CpuMask) (s : LockupLab) : Prop where
  exiting : s.exiting = true → s.watchdog.wdRunning = false
  armed : ∀ cpu, s.armed cpu → cpu ∈ mask.onlineCpus ∧ s.watchdog.wdRunning
  owned : ∀ cpu, s.watchdog.wdThread cpu → cpu ∈ mask.onlineCpus ∧ s.watchdog.wdRunning
  running : ∀ cpu, s.threads cpu = .running → s.watchdog.wdThread cpu
  stopping : ∀ cpu, s.threads cpu ≠ .stopping
  khung : s.khung = .running → s.khungThread = .task
  khungStopping : s.khung ≠ .stopping

theorem Inv.settled (inv : Inv mask s) (idle : s.phase = .idle) : Settled mask s where
  exiting := by
    have phase := inv.phase
    rw [idle] at phase
    intro exiting
    exact Bool.noConfusion (phase.symm.trans exiting)
  armed cpu armed := by simpa [idle, Phase.mayFire] using inv.armed cpu armed
  owned cpu owned := by simpa [idle, Phase.mayOwn] using inv.owned cpu owned
  running := inv.running
  stopping := inv.joins (by simp [idle])
  khung life := (inv.khung life).1
  khungStopping := inv.khung_joins (by simp [idle])

theorem Settled.khung_absent (settled : Settled mask s) (none : s.khungThread ≠ .task) :
    s.khung = .absent := by
  cases life : s.khung with
  | absent => rfl
  | running => exact absurd (settled.khung life) none
  | stopping => exact absurd life settled.khungStopping

theorem Settled.idle_inv (settled : Settled mask s) (exiting : s.exiting = false) :
    Inv mask { s with phase := .idle } where
  phase := exiting
  armed := settled.armed
  owned := settled.owned
  running := settled.running
  stopping cpu life := absurd life (settled.stopping cpu)
  khung life := ⟨settled.khung life, by simp⟩
  khungStopping life := absurd life settled.khungStopping

theorem Settled.unloaded_inv (settled : Settled mask s) (exiting : s.exiting = true)
    (gone : s.khung = .absent) : Inv mask { s with phase := .unloaded } where
  phase := settled.exiting exiting
  armed cpu armed := by
    have running := (settled.armed cpu armed).2
    rw [settled.exiting exiting] at running
    contradiction
  owned cpu owned := by
    have running := (settled.owned cpu owned).2
    rw [settled.exiting exiting] at running
    contradiction
  running := settled.running
  stopping cpu life := absurd life (settled.stopping cpu)
  khung life := by simp [gone] at life
  khungStopping life := absurd life settled.khungStopping

theorem Settled.stopKhung_inv (settled : Settled mask s) : Inv mask s.stopKhung := by
  unfold stopKhung
  split
  case h_1 null =>
    by_cases exiting : s.exiting = true
    · rw [if_pos exiting]
      exact settled.unloaded_inv exiting (settled.khung_absent (by simp [null]))
    · rw [if_neg exiting]
      exact settled.idle_inv (Bool.eq_false_of_not_eq_true exiting)
  case h_2 => exact ⟨trivial, fun cpu armed => ⟨(settled.armed cpu armed).1, trivial⟩,
      fun cpu owned => ⟨(settled.owned cpu owned).1, trivial⟩, settled.running,
      fun cpu life => absurd life (settled.stopping cpu), fun life => ⟨settled.khung life, by simp⟩,
      fun life => absurd life settled.khungStopping⟩
  case h_3 => exact ⟨settled.exiting, settled.armed, settled.owned, settled.running,
      fun cpu life => absurd life (settled.stopping cpu), by simp, fun _ => rfl⟩

theorem Settled.afterWdStop_inv (settled : Settled mask s) : Inv mask s.afterWdStop := by
  unfold afterWdStop
  split
  case isTrue => exact settled.stopKhung_inv
  case isFalse staying => exact settled.idle_inv (Bool.eq_false_of_not_eq_true staying)

theorem Settled.cancelling_inv (settled : Settled mask s) (running : s.watchdog.wdRunning) (exiting : Bool) :
    Inv mask { s with exiting := exiting, phase := .cancelling mask.onlineCpus } where
  phase := running
  armed cpu armed := ⟨(settled.armed cpu armed).1, (settled.armed cpu armed).1⟩
  owned cpu owned := ⟨(settled.owned cpu owned).1, trivial⟩
  running := settled.running
  stopping cpu life := absurd life (settled.stopping cpu)
  khung life := ⟨settled.khung life, by simp⟩
  khungStopping life := absurd life settled.khungStopping

theorem Settled.creating_inv (settled : Settled mask s) (quiet : s.watchdog.wdRunning = false)
    (staying : s.exiting = false) (created : Nat → Bool) :
    Inv mask { s with phase := .creating mask.onlineCpus created } where
  phase := ⟨quiet, staying, onlineCpus_nodup mask, List.Subset.refl _⟩
  armed cpu armed := by
    have running := (settled.armed cpu armed).2
    rw [quiet] at running
    contradiction
  owned cpu owned := by
    have running := (settled.owned cpu owned).2
    rw [quiet] at running
    contradiction
  running := settled.running
  stopping cpu life := absurd life (settled.stopping cpu)
  khung life := ⟨settled.khung life, by simp⟩
  khungStopping life := absurd life settled.khungStopping

theorem llExit_inv (inv : Inv mask s) (idle : s.phase = .idle) : Inv mask (s.llExit mask) := by
  have settled := inv.settled idle
  unfold llExit wdStop
  split
  case isTrue running => exact settled.cancelling_inv running true
  case isFalse quiet =>
    have exiting : Settled mask { s with exiting := true } := { settled with
      exiting := fun _ => Bool.eq_false_of_not_eq_true quiet }
    exact exiting.afterWdStop_inv

theorem llWrite_inv (inv : Inv mask s) (idle : s.phase = .idle) (w : Write) : Inv mask (s.llWrite mask w) := by
  have settled := inv.settled idle
  have staying : s.exiting = false := by
    have phase := inv.phase
    rwa [idle] at phase
  have trigger : ∀ kind cpu secs created, Inv mask (s.trigger kind cpu secs created) := by
    intro kind cpu secs created
    unfold LockupLab.trigger
    split
    · exact ⟨inv.phase, inv.armed, inv.owned, inv.running, inv.stopping, inv.khung, inv.khungStopping⟩
    · exact inv
  unfold llWrite
  split
  case h_1 =>
    unfold wdStart
    split
    case isTrue => exact inv
    case isFalse quiet => exact settled.creating_inv (Bool.eq_false_of_not_eq_true quiet) staying w.created
  case h_2 =>
    unfold wdStop
    split
    case isTrue running => exact settled.cancelling_inv running s.exiting
    case isFalse => exact settled.afterWdStop_inv
  case h_3 => exact ⟨inv.phase, inv.armed, inv.owned, inv.running, inv.stopping, inv.khung, inv.khungStopping⟩
  case h_4 a _ =>
    have timeout : Inv mask { s with hungTimeout := a } :=
      ⟨inv.phase, inv.armed, inv.owned, inv.running, inv.stopping, inv.khung, inv.khungStopping⟩
    unfold khungOn
    simp only
    split
    · rename_i null
      have absent := settled.khung_absent (by simp [null])
      split
      · exact ⟨inv.phase, inv.armed, inv.owned, inv.running, inv.stopping,
          fun _ => ⟨rfl, by simp [idle]⟩, fun life => by simp at life⟩
      · exact ⟨inv.phase, inv.armed, inv.owned, inv.running, inv.stopping,
          fun life => by simp [absent] at life, inv.khungStopping⟩
    · exact timeout
    · exact timeout
  case h_5 => exact settled.stopKhung_inv
  all_goals first | exact trigger _ _ _ _ | exact inv

/-! ## The statements in between -/

theorem startThread_wdRunning (created : Nat → Bool) (w : Watchdog) (cpu : Nat) :
    (w.startThread created cpu).wdRunning = w.wdRunning := by
  unfold Watchdog.startThread
  split
  · rfl
  · rfl

theorem startThread_wdThread (created : Nat → Bool) (w : Watchdog) (cpu c : Nat) :
    (w.startThread created cpu).wdThread c ↔ w.wdThread c ∨ c = cpu ∧ created cpu := by
  unfold Watchdog.startThread
  rcases eq_or_ne c cpu with rfl | other
  · split
    case isTrue created => simp [created]
    case isFalse failed => simp [failed]
  · split
    · simp [other]
    · simp [other]

theorem Inv.create {left : List Nat} {created : Nat → Bool} (inv : Inv mask s)
    (here : s.phase = .creating (cpu :: left) created) :
    Inv mask { s.startThread created cpu with phase := .creating left created } where
  phase := by
    have phase := inv.phase
    rw [here] at phase
    obtain ⟨quiet, staying, nodup, online⟩ := phase
    refine ⟨?_, staying, nodup.of_cons, List.Subset.trans (List.subset_cons_self cpu left) online⟩
    exact (startThread_wdRunning created s.watchdog cpu).trans quiet
  armed c armed := absurd armed (inv.unarmed (by rw [here]; exact id))
  owned c owned := by
    have phase := inv.phase
    rw [here] at phase
    obtain ⟨-, -, nodup, online⟩ := phase
    rcases (startThread_wdThread created s.watchdog cpu c).mp owned with before | ⟨rfl, -⟩
    · obtain ⟨member, done⟩ := inv.owned c before
      rw [here] at done
      exact ⟨member, fun later => done (List.mem_cons_of_mem cpu later)⟩
    · exact ⟨online List.mem_cons_self, (List.nodup_cons.mp nodup).1⟩
  running c life := by
    refine (startThread_wdThread created s.watchdog cpu c).mpr ?_
    simp only [LockupLab.startThread] at life
    split at life
    case isTrue yes =>
      rcases eq_or_ne c cpu with rfl | other
      · exact Or.inr ⟨rfl, yes⟩
      · rw [Function.update_of_ne other] at life
        exact Or.inl (inv.running c life)
    case isFalse => exact Or.inl (inv.running c life)
  stopping c life := by
    have before : s.threads c = .stopping := by
      simp only [LockupLab.startThread] at life
      split at life
      · rcases eq_or_ne c cpu with rfl | other
        · simp at life
        · rwa [Function.update_of_ne other] at life
      · exact life
    exact absurd before (inv.joins (by simp [here]) c)
  khung life := ⟨(inv.khung life).1, by simp⟩
  khungStopping life := absurd life (inv.khung_joins (by simp [here]))

theorem Inv.stop {left : List Nat} (inv : Inv mask s) (here : s.phase = .stopping (cpu :: left)) :
    Inv mask { s with
      watchdog := { s.watchdog with wdThread := Function.update s.watchdog.wdThread cpu false }
      threads := Function.update s.threads cpu .stopping
      phase := .joining cpu left } where
  phase := by
    have phase := inv.phase
    rwa [here] at phase
  armed c armed := absurd armed (inv.unarmed (by rw [here]; exact id))
  owned c owned := by
    rcases eq_or_ne c cpu with rfl | other
    · simp at owned
    · obtain ⟨online, later⟩ := inv.owned c (by simpa [other] using owned)
      rw [here] at later
      exact ⟨online, (List.mem_cons.mp later).resolve_left other⟩
  running c life := by
    rcases eq_or_ne c cpu with rfl | other
    · simp at life
    · simpa [other] using inv.running c (by simpa [other] using life)
  stopping c life := by
    rcases eq_or_ne c cpu with rfl | other
    · exact ⟨left, rfl⟩
    · exact absurd (by simpa [other] using life) (inv.joins (by simp [here]) c)
  khung life := ⟨(inv.khung life).1, by simp⟩
  khungStopping life := absurd life (inv.khung_joins (by simp [here]))

theorem Inv.goto {next : Phase} (inv : Inv mask s)
    (fits : next.fits mask s.watchdog.wdRunning s.exiting)
    (fires : ∀ c, s.armed c → c ∈ mask.onlineCpus → s.phase.mayFire s.watchdog.wdRunning c →
      next.mayFire s.watchdog.wdRunning c)
    (owns : ∀ c, s.watchdog.wdThread c → c ∈ mask.onlineCpus → s.phase.mayOwn s.watchdog.wdRunning c →
      next.mayOwn s.watchdog.wdRunning c)
    (joins : ∀ c, s.threads c ≠ .stopping) (khung : s.khung ≠ .stopping) (loaded : next ≠ .unloaded) :
    Inv mask { s with phase := next } where
  phase := fits
  armed c armed := ⟨(inv.armed c armed).1, fires c armed (inv.armed c armed).1 (inv.armed c armed).2⟩
  owned c owned := ⟨(inv.owned c owned).1, owns c owned (inv.owned c owned).1 (inv.owned c owned).2⟩
  running := inv.running
  stopping c life := absurd life (joins c)
  khung life := ⟨(inv.khung life).1, loaded⟩
  khungStopping life := absurd life khung

theorem Inv.arm (inv : Inv mask s) (here : s.phase = .arming []) :
    Inv mask { s with watchdog := { s.watchdog with wdRunning := true }, phase := .idle } where
  phase := by
    have phase := inv.phase
    rw [here] at phase
    exact phase.2.1
  armed c armed := ⟨(inv.armed c armed).1, rfl⟩
  owned c owned := ⟨(inv.owned c owned).1, rfl⟩
  running := inv.running
  stopping c life := absurd life (inv.joins (by simp [here]) c)
  khung life := ⟨(inv.khung life).1, by simp⟩
  khungStopping life := absurd life (inv.khung_joins (by simp [here]))

theorem Inv.cancel {left : List Nat} (inv : Inv mask s) (here : s.phase = .cancelling (cpu :: left)) :
    Inv mask { s with armed := Function.update s.armed cpu false, phase := .cancelling left } where
  phase := by
    have phase := inv.phase
    rwa [here] at phase
  armed c armed := by
    rcases eq_or_ne c cpu with rfl | other
    · simp at armed
    · obtain ⟨online, later⟩ := inv.armed c (by simpa [other] using armed)
      rw [here] at later
      exact ⟨online, (List.mem_cons.mp later).resolve_left other⟩
  owned c owned := ⟨(inv.owned c owned).1, trivial⟩
  running := inv.running
  stopping c life := absurd life (inv.joins (by simp [here]) c)
  khung life := ⟨(inv.khung life).1, by simp⟩
  khungStopping life := absurd life (inv.khung_joins (by simp [here]))

theorem Inv.settle (inv : Inv mask s) (here : s.phase = .stopping []) :
    Settled mask { s with watchdog := { s.watchdog with wdRunning := false } } where
  exiting _ := rfl
  armed c armed := absurd armed (inv.unarmed (by rw [here]; exact id))
  owned c owned := by
    have later := (inv.owned c owned).2
    rw [here] at later
    exact absurd later List.not_mem_nil
  running := inv.running
  stopping := inv.joins (by simp [here])
  khung life := (inv.khung life).1
  khungStopping := inv.khung_joins (by simp [here])

theorem Inv.join {left : List Nat} (inv : Inv mask s) (here : s.phase = .joining cpu left)
    (gone : s.threads cpu = .absent) : Inv mask { s with phase := .stopping left } := by
  refine inv.goto ?_ ?_ ?_ ?_ ?_ (by simp)
  · have phase := inv.phase
    rwa [here] at phase
  · rw [here]
    exact fun c _ _ fires => fires
  · rw [here]
    exact fun c _ _ later => later
  · intro c life
    obtain ⟨left', joining⟩ := inv.stopping c life
    obtain ⟨rfl, -⟩ := Phase.joining.inj (here.symm.trans joining)
    rw [gone] at life
    contradiction
  · exact inv.khung_joins (by simp [here])

theorem Inv.leave (inv : Inv mask s) (here : s.phase = .joiningKhung) (gone : s.khung = .absent) :
    Settled mask s where
  exiting := by
    have phase := inv.phase
    rwa [here] at phase
  armed c armed := by simpa [here, Phase.mayFire] using inv.armed c armed
  owned c owned := by simpa [here, Phase.mayOwn] using inv.owned c owned
  running := inv.running
  stopping := inv.joins (by simp [here])
  khung := by simp [gone]
  khungStopping := by simp [gone]

theorem proceed_inv (inv : Inv mask s) (goes : Proceeds mask s s') : Inv mask s' := by
  have phase := inv.phase
  cases goes with
  | create here => exact inv.create here
  | created here =>
      rw [here] at phase
      refine inv.goto ⟨phase.1, phase.2.1, onlineCpus_nodup mask, List.Subset.refl _⟩ ?_ ?_
        (inv.joins (by simp [here])) (inv.khung_joins (by simp [here])) (by simp)
      · rw [here]
        exact fun c _ _ fires => fires.elim
      · exact fun c _ _ _ => trivial
  | armed here => exact inv.arm here
  | cancel here => exact inv.cancel here
  | cancelled here =>
      rw [here] at phase
      refine inv.goto phase ?_ ?_ (inv.joins (by simp [here])) (inv.khung_joins (by simp [here])) (by simp)
      · rw [here]
        exact fun c _ _ fires => absurd fires List.not_mem_nil
      · exact fun c _ online _ => online
  | stop here _ => exact inv.stop here
  | skip here none =>
      rw [here] at phase
      refine inv.goto phase ?_ ?_ (inv.joins (by simp [here])) (inv.khung_joins (by simp [here])) (by simp)
      · rw [here]
        exact fun c _ _ fires => fires
      · rw [here]
        intro c owned _ later
        refine (List.mem_cons.mp later).resolve_left ?_
        rintro rfl
        exact none owned
  | join here gone => exact inv.join here gone
  | stopped here => exact (inv.settle here).afterWdStop_inv
  | unload here gone exiting => exact (inv.leave here gone).unloaded_inv exiting gone
  | leave here gone staying =>
      have settled := inv.leave here gone
      exact ⟨staying, settled.armed, settled.owned, settled.running,
        fun cpu life => absurd life (settled.stopping cpu), by simp [gone], by simp [gone]⟩

theorem ipi_inv {left : List Nat} (inv : Inv mask s) (here : s.phase = .arming left) (member : cpu ∈ left) :
    Inv mask { s with
      watchdog := s.watchdog.startHrtimerLocal (fun _ => s.nowSec) cpu
      armed := Function.update s.armed cpu true
      phase := .arming (left.erase cpu) } := by
  have phase := inv.phase
  rw [here] at phase
  obtain ⟨quiet, staying, nodup, online⟩ := phase
  constructor
  · exact ⟨quiet, staying, nodup.erase cpu, List.Subset.trans List.erase_subset online⟩
  · intro c armed
    rcases eq_or_ne c cpu with rfl | other
    · exact ⟨online member, nodup.not_mem_erase⟩
    · obtain ⟨online, done⟩ := inv.armed c (by simpa [other] using armed)
      rw [here] at done
      exact ⟨online, fun later => done (List.mem_of_mem_erase later)⟩
  · exact fun c owned => ⟨(inv.owned c owned).1, trivial⟩
  · exact inv.running
  · exact fun c life => absurd life (inv.joins (by simp [here]) c)
  · exact fun life => ⟨(inv.khung life).1, by simp⟩
  · exact fun life => absurd life (inv.khung_joins (by simp [here]))

theorem timer_inv (inv : Inv mask s) (cpu : Nat) (now : UInt64) :
    Inv mask { s with watchdog := s.watchdog.wdTimerFn mask cpu now } := by
  obtain ⟨_, _, _, _, _, changes⟩ := s.watchdog.wdTimerFn_changes mask cpu now
  rw [changes]
  exact ⟨inv.phase, inv.armed, inv.owned, inv.running, inv.stopping, inv.khung, inv.khungStopping⟩

theorem returned_inv (inv : Inv mask s) (cpu : Nat) :
    Inv mask { s with threads := Function.update s.threads cpu .absent } := by
  refine ⟨inv.phase, inv.armed, inv.owned, fun c life => ?_, fun c life => ?_, inv.khung, inv.khungStopping⟩
  · rcases eq_or_ne c cpu with rfl | other
    · simp at life
    · exact inv.running c (by simpa [other] using life)
  · rcases eq_or_ne c cpu with rfl | other
    · simp at life
    · exact inv.stopping c (by simpa [other] using life)

theorem inv_step (inv : Inv mask s) (fired : Fires (step mask) s event s') : Inv mask s' := by
  cases moves fired with
  | write idle => exact llWrite_inv inv idle _
  | exit idle => exact llExit_inv inv idle
  | proceed goes => exact proceed_inv inv goes
  | ipi here member => exact ipi_inv inv here member
  | timer => exact timer_inv inv _ s.nowSec
  | threadReturns => exact returned_inv inv _
  | khungReturns =>
      exact ⟨inv.phase, inv.armed, inv.owned, inv.running, inv.stopping, by simp, by simp⟩
  | thread | generatorReturns | pass =>
      exact ⟨inv.phase, inv.armed, inv.owned, inv.running, inv.stopping, inv.khung, inv.khungStopping⟩

theorem Inv.run {events : List LabEvent} (inv : Inv mask s)
    (run : Run (Fires (step mask)) s events s') : Inv mask s' :=
  Run.invariant (Inv mask) inv (fun _ _ _ => inv_step) run

theorem inv_of_run {events : List LabEvent} (run : LabRuns mask events s) : Inv mask s :=
  inv_loaded.run run

end LockupLab

end LinuxInterview.Lockup
