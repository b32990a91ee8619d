import LinuxInterview.WqProbe.Workqueue

/-!
# What `wq_probe_exit` leaves behind
-/

namespace LinuxInterview.WqProbe
open Library

def State.Quiet (s : State) : Prop := ∀ i, s.items i = .idle

def UnloadSafe (p : Params) : Prop :=
  ∀ events s, Runs p events s → s.mainAt = .unloaded → s.Quiet

/-! ## A workqueue of the module's own is flushed -/

variable {p : Params} {s s' : State}

/-- Items beyond `pw` are never used, and nothing is left to run without a workqueue to flush. -/
structure Accounted (p : Params) (s : State) : Prop where
  inside : ∀ i, maxw ≤ i → s.items i = .idle
  queueing : ∀ i, s.mainAt = .queue i → p.onSystemWq = false → s.myWq = true
  owned : s.myWq = false → s.Quiet
  flushed : s.mainAt = .destroy ∨ s.mainAt = .unloaded → s.Quiet

theorem count_le (p : Params) : p.count ≤ maxw := by
  unfold Params.count Params.clamped
  split
  · decide
  · rename_i small
    have below : p.nwork.toInt ≤ (32 : Int32).toInt := Int32.le_iff_toInt_le.mp (Int32.not_lt.mp small)
    have bound : (32 : Int32).toInt = 32 := rfl
    unfold maxw
    omega

theorem Accounted.main (inv : Accounted p s) (safe : p.onSystemWq = false ∨ p.count = 0) {memory : Bool}
    (action : main p memory s = some s') : Accounted p s' := by
  obtain ⟨inside, queueing, owned, flushed⟩ := inv
  unfold WqProbe.main at action
  cases mainAt : s.mainAt
  all_goals simp only [mainAt, reduceCtorEq] at action
  case init =>
    split at action
    · rename_i system
      cases action
      exact ⟨inside, fun _ _ other => by rw [system] at other; contradiction, owned, by simp⟩
    · split at action
      · split at action
        · cases action
          exact ⟨inside, fun _ _ _ => rfl, by simp, by simp⟩
        · cases action
          exact ⟨inside, by simp, owned, by simp⟩
      · cases action
        exact ⟨inside, by simp, owned, by simp⟩
  case queue i =>
    split at action
    · rename_i more
      cases action
      have own : p.onSystemWq = false := safe.resolve_right (by omega)
      have allocated := queueing i mainAt own
      refine ⟨fun j outside => ?_, fun _ _ _ => allocated, ?_, by simp⟩
      · have other : j ≠ i := by
          have bound := count_le p
          omega
        simp only
        rw [Function.update_of_ne other]
        exact inside j outside
      · intro none
        simp [allocated] at none
    · split at action
      · cases action
        exact ⟨inside, by simp, owned, by simp⟩
      · cases action
        exact ⟨inside, by simp, owned, by simp⟩
  case pause =>
    split at action
    · cases action
      exact ⟨inside, by simp, owned, by simp⟩
    · cases action
  case await =>
    split at action
    · cases action
      exact ⟨inside, by simp, owned, by simp⟩
    · split at action
      · cases action
        exact ⟨inside, by simp, owned, by simp⟩
      · cases action
  case loaded =>
    cases action
    refine ⟨inside, ?_, owned, ?_⟩
    · simp only
      split
      all_goals simp
    · simp only
      split
      · simp
      · exact fun _ => owned (by simpa using ‹¬ s.myWq = true›)
  case flush =>
    split at action
    · rename_i drained
      cases action
      refine ⟨inside, by simp, owned, fun _ i => ?_⟩
      rcases Nat.lt_or_ge i maxw with used | unused
      · exact drained i (List.mem_range.mpr used)
      · exact inside i unused
    · cases action
  case destroy =>
    cases action
    exact ⟨inside, by simp, owned, fun _ => flushed (Or.inl mainAt)⟩

theorem work_busy {i : Nat} (action : work p i s = some s') : s.items i ≠ .idle := by
  intro idle
  simp [work, idle] at action

theorem work_changes {i : Nat} (action : work p i s = some s') : ∃ remaining allDone item,
    s' = { s with remaining := remaining, allDone := allDone, items := Function.update s.items i item } := by
  unfold work at action
  split at action
  case h_1 => cases action
  case h_2 =>
    split at action
    · cases action
      exact ⟨_, _, _, rfl⟩
    · cases action
  case h_3 =>
    split at action
    · cases action
      exact ⟨_, _, _, rfl⟩
    · cases action
  all_goals
    cases action
    exact ⟨_, _, _, rfl⟩

theorem Accounted.work (inv : Accounted p s) {i : Nat} (action : work p i s = some s') :
    Accounted p s' := by
  obtain ⟨inside, queueing, owned, flushed⟩ := inv
  have busy := work_busy action
  obtain ⟨remaining, allDone, item, rfl⟩ := work_changes action
  refine ⟨fun j outside => ?_, queueing, fun none => absurd (owned none i) busy,
    fun late => absurd (flushed late i) busy⟩
  have other : j ≠ i := by
    rintro rfl
    exact busy (inside j outside)
  simp only
  rw [Function.update_of_ne other]
  exact inside j outside

theorem unloadSafe_of_own_workqueue (safe : p.onSystemWq = false ∨ p.count = 0) : UnloadSafe p := by
  intro events s run unloaded
  have accounted : Accounted p s := by
    refine run.invariant (Accounted p) ⟨fun _ _ => rfl, by simp [State.init], fun _ _ => rfl,
      fun _ _ => rfl⟩ ?_
    intro before event after inv action
    cases event with
    | main memory => exact inv.main safe action
    | work i => exact inv.work action
    | pass ms =>
        cases action
        exact ⟨inv.inside, inv.queueing, inv.owned, inv.flushed⟩
  exact accounted.flushed (Or.inr unloaded)

/-! ## The system workqueue is not -/

theorem queue_run (p : Params) {k : Nat} (room : k ≤ p.count) (start : State)
    (queueing : start.mainAt = .queue 0) :
    Run (Fires (step p)) start (.replicate k (.main true)) { start with
      items := fun i => if i < k then .queued else start.items i
      mainAt := .queue k } := by
  induction k with
  | zero =>
      have same : start = { start with
          items := fun i => if i < 0 then .queued else start.items i
          mainAt := .queue 0 } := by
        rw [← queueing]
        rfl
      rw [← same]
      exact .nil
  | succ k ih =>
      rw [List.replicate_succ']
      refine .snoc (ih (by omega)) ?_
      have more : k < p.count := by omega
      have queued : Function.update (fun i => if i < k then .queued else start.items i) k .queued =
          fun i => if i < k + 1 then .queued else start.items i := by
        funext i
        by_cases last : i = k
        · rw [last, Function.update_self, if_pos (Nat.lt_succ_self k)]
        · rw [Function.update_of_ne last]
          have before : i < k + 1 ↔ i < k := by omega
          simp only [before]
      simp [Fires, step, main, more, queued]

theorem unloaded_with_queued_items (system : p.onSystemWq = true) (several : 0 < p.count) :
    ∃ events s, Runs p events s ∧ s.mainAt = .unloaded ∧ s.items 0 = .queued := by
  have start : Fires (step p) State.init (.main true)
      { State.init with remaining := p.clamped, mainAt := .queue 0 } := by
    simp [Fires, step, main, system, State.init]
  have queued := (queue_run p le_rfl _ rfl).cons start
  have rest : [Event.main true, .pass p.pause, .main true, .pass p.patience, .main true,
      .main true].foldlM (step p) { State.init with
        remaining := p.clamped
        items := fun i => if i < p.count then .queued else State.init.items i
        mainAt := .queue p.count } = some { State.init with
        now := p.pause + p.patience
        remaining := p.clamped
        items := fun i => if i < p.count then .queued else State.init.items i
        mainAt := .unloaded } := by
    simp [step, main, system, State.init]
  exact ⟨_, _, queued.append (run_of_foldlM rest), rfl, if_pos several⟩

theorem count_pos_iff (p : Params) : 0 < p.count ↔ 0 < p.nwork := by
  have positive : 0 < p.nwork ↔ 0 < p.nwork.toInt := Int32.lt_iff_toInt_lt
  have large : (32 : Int32) < p.nwork ↔ 32 < p.nwork.toInt := Int32.lt_iff_toInt_lt
  rw [positive, Params.count, Params.clamped]
  split
  · rename_i above
    have value : (32 : Int32).toInt = 32 := rfl
    have bound := large.mp above
    omega
  · omega

theorem unload_safe_iff (p : Params) : UnloadSafe p ↔ ¬ ((p.mode = 0 ∨ p.mode = 1) ∧ 0 < p.nwork) := by
  rw [← count_pos_iff]
  constructor
  · rintro safe ⟨system, several⟩
    obtain ⟨events, s, run, unloaded, queued⟩ :=
      unloaded_with_queued_items (p := p) (by simpa [Params.onSystemWq] using system) several
    have idle := safe events s run unloaded 0
    rw [queued] at idle
    contradiction
  · intro other
    apply unloadSafe_of_own_workqueue
    by_cases system : p.mode = 0 ∨ p.mode = 1
    · right
      have none : ¬ 0 < p.count := fun several => other ⟨system, several⟩
      omega
    · left
      simpa [Params.onSystemWq] using system

/-- One item sleeps for 100 s, and the two waits of the loading give up after 80 s. -/
def longSleep : Params where
  mode := 0
  nwork := 1
  sleepMs := 100000
  burnMs := 60

def hastyUnload : List Event :=
  [.main true, .main true, .main true, .work 0, .pass 50000, .main true, .pass 30000, .main true,
    .main true]

theorem item_outlives_module : ¬ UnloadSafe longSleep := by
  intro safe
  have run : Runs longSleep hastyUnload
      ((hastyUnload.foldlM (step longSleep) State.init).getD State.init) := run_of_foldlM rfl
  have idle := safe _ _ run rfl 0
  exact absurd idle (by decide)

end LinuxInterview.WqProbe
