import LinuxInterview.DlLab.Mutexes

/-!
# The rescue
-/

namespace LinuxInterview.DlLab
open Library

variable {mode : Mode} {escapeMs : Int32} {pretends : Bool} {s s' : State} {t u : Lab}
variable {events : List Event}

def LabAt.past : LabAt → Prop
  | .unlockSecond | .unlockFirst | .waitStop => True
  | .allowSignal | .lockFirst | .msleep | .asleep _ | .lockSecond => False

def WatchdogAt.sent : WatchdogAt → Lab → Prop
  | .msleep, _ | .asleep _, _ | .kill .ab, _ => False
  | .kill .ba, t => t = .ab
  | .kill .aa, t => t ≠ .aa
  | .waitStop, _ => True

def Sent (mode : Mode) (s : State) : Prop := ∀ t, mode.starts t → s.watchdog.sent t

/-- Nothing that can still happen takes the thread past its second lock. -/
def Doomed (mode : Mode) (escapeMs : Int32) (pretends : Bool) (s : State) (t : Lab) : Prop :=
  ∀ events s', Run (Fires (step mode escapeMs pretends)) s events s' → ¬ (s'.labs t).here.past

def Released (mode : Mode) (escapeMs : Int32) (pretends : Bool) (s : State) : Prop :=
  Sent mode s → ∀ t, mode.starts t → ¬ (s.labs t).pending → ¬ Doomed mode escapeMs pretends s t

/-! ## No way out -/

def Lost (mode : Mode) (s : State) : Prop :=
  ∀ t, mode.starts t → s.watchdog.sent t ∧ ¬ (s.labs t).pending

def Trapped (mode : Mode) (s : State) : Prop :=
  match mode with
  | .aaMutex => ¬ (s.labs .aa).here.past
  | .abba => (s.labs .ab).here.grips ∧ (s.labs .ba).here.grips

theorem move_pending (moved : Move pretends t s s') (u : Lab) :
    (s'.labs u).pending = (s.labs u).pending := by
  rcases eq_or_ne u t with rfl | different
  · cases moved <;> simp [State.goto, State.lock, State.unlock, State.allowSignal]
  · cases moved <;> simp [State.goto, State.lock, State.unlock, State.allowSignal, different]

theorem move_watchdog (moved : Move pretends t s s') : s'.watchdog = s.watchdog := by
  cases moved <;> rfl

theorem move_labs (moved : Move pretends t s s') (different : u ≠ t) : s'.labs u = s.labs u := by
  cases moved <;> simp [State.goto, State.lock, State.unlock, State.allowSignal, different]

structure WatchdogEffect (mode : Mode) (s s' : State) : Prop where
  owner : s'.owner = s.owner
  here : ∀ u, (s'.labs u).here = (s.labs u).here
  allowed : ∀ u, (s'.labs u).allowed = (s.labs u).allowed
  sent : ∀ u, s'.watchdog.sent u ↔ s.watchdog.sent u ∨ s.watchdog = .kill u
  pending : ∀ u, (s'.labs u).pending ↔
    (s.labs u).pending ∨ s.watchdog = .kill u ∧ mode.starts u ∧ (s.labs u).allowed

theorem sendSig_effect (s : State) (t u : Lab) :
    ((s.sendSig t).labs u).here = (s.labs u).here ∧
      ((s.sendSig t).labs u).allowed = (s.labs u).allowed ∧
      (((s.sendSig t).labs u).pending ↔ (s.labs u).pending ∨ t = u ∧ (s.labs u).allowed) := by
  unfold State.sendSig
  split
  case isTrue allowed =>
    rcases eq_or_ne u t with rfl | different
    · simp [allowed]
    · simp [different, different.symm]
  case isFalse discarded =>
    refine ⟨rfl, rfl, Or.inl, ?_⟩
    rintro (pending | ⟨rfl, allowed⟩)
    · exact pending
    · exact absurd allowed discarded

theorem kill_effect {next : WatchdogAt} (here : s.watchdog = .kill t)
    (sent : ∀ u, next.sent u ↔ (WatchdogAt.kill t).sent u ∨ t = u) :
    WatchdogEffect mode s { (if mode.starts t then s.sendSig t else s) with watchdog := next } := by
  by_cases started : mode.starts t
  · simp only [if_pos started]
    constructor
    · unfold State.sendSig
      split
      · rfl
      · rfl
    · exact fun u => (sendSig_effect s t u).1
    · exact fun u => (sendSig_effect s t u).2.1
    · intro u
      rw [here, WatchdogAt.kill.injEq]
      exact sent u
    · intro u
      rw [here, WatchdogAt.kill.injEq, (sendSig_effect s t u).2.2]
      constructor
      · rintro (before | ⟨rfl, allowed⟩)
        · exact Or.inl before
        · exact Or.inr ⟨rfl, started, allowed⟩
      · rintro (before | ⟨rfl, -, allowed⟩)
        · exact Or.inl before
        · exact Or.inr ⟨rfl, allowed⟩
  · simp only [if_neg started]
    refine ⟨rfl, fun _ => rfl, fun _ => rfl, fun u => ?_, fun u => ?_⟩
    · rw [here, WatchdogAt.kill.injEq]
      exact sent u
    · rw [here, WatchdogAt.kill.injEq]
      refine ⟨Or.inl, ?_⟩
      rintro (before | ⟨rfl, yes, -⟩)
      · exact before
      · exact absurd yes started

theorem watchdog_effect (fired : watchdogFn mode escapeMs s = some s') : WatchdogEffect mode s s' := by
  cases here : s.watchdog with
  | msleep =>
      simp only [watchdogFn, here] at fired
      cases fired
      exact ⟨rfl, fun _ => rfl, fun _ => rfl, by simp [here, WatchdogAt.sent], by simp [here]⟩
  | asleep till =>
      simp only [watchdogFn, here] at fired
      obtain ⟨-, fired⟩ := Option.ite_none_right_eq_some.mp fired
      cases fired
      exact ⟨rfl, fun _ => rfl, fun _ => rfl, by simp [here, WatchdogAt.sent], by simp [here]⟩
  | kill t =>
      cases t
      all_goals
        simp only [watchdogFn, here] at fired
        cases fired
        refine kill_effect here fun u => ?_
        cases u
      all_goals simp [WatchdogAt.sent]
  | waitStop =>
      simp only [watchdogFn, here] at fired
      cases fired
      exact ⟨rfl, fun _ => rfl, fun _ => rfl, by simp [here, WatchdogAt.sent], by simp [here]⟩

/-! ### A trap stays shut -/

theorem discarded_step {event : Event} (discarded : s.watchdog.sent t ∧ ¬ (s.labs t).pending)
    (fired : Fires (step mode escapeMs pretends) s event s') :
    s'.watchdog.sent t ∧ ¬ (s'.labs t).pending := by
  obtain ⟨sent, quiet⟩ := discarded
  cases event with
  | lab u =>
      obtain ⟨-, moved⟩ := step_lab fired
      rw [move_watchdog moved, move_pending moved]
      exact ⟨sent, quiet⟩
  | watchdog =>
      have effect := watchdog_effect fired
      rw [effect.sent, effect.pending]
      refine ⟨Or.inl sent, ?_⟩
      rintro (pending | ⟨here, -⟩)
      · exact quiet pending
      · rw [here] at sent
        cases t <;> simp [WatchdogAt.sent] at sent
  | pass ms =>
      cases fired
      exact ⟨sent, quiet⟩

theorem lost_step {event : Event} (lost : Lost mode s)
    (fired : Fires (step mode escapeMs pretends) s event s') : Lost mode s' :=
  fun t started => discarded_step (lost t started) fired

/-- A thread between its locks, whose second mutex is held and who has no signal, stays there. -/
theorem grips_of_move {holder : Lab} (grips : (s.labs t).here.grips)
    (held : s.owner t.second = some holder) (quiet : ¬ (s.labs t).pending)
    (moved : Move pretends t s s') : (s'.labs t).here.grips := by
  cases moved with
  | msleep here other => simp [State.goto, LabAt.grips]
  | wake here other due => simp [State.goto, LabAt.grips]
  | lockSecond here free => simp [free] at held
  | interrupted here owner pending => exact absurd pending quiet
  | allowSignal here | lockFirst here | unlockSecond here | unlockFirst here | waitStop here =>
      simp [here, LabAt.grips] at grips

theorem LabAt.grips.not_past {here : LabAt} (grips : here.grips) : ¬ here.past := by
  cases here <;> simp_all [LabAt.grips, LabAt.past]

theorem LabAt.grips.holds_iff {here : LabAt} (grips : here.grips) (t : Lab) (m : Mutex) :
    here.holds t m ↔ m = t.first := by
  cases here <;> simp_all [LabAt.grips, LabAt.holds]

theorem LabAt.not_holds_of_waiting {here : LabAt} {m : Mutex} (past : ¬ here.past) (grips : ¬ here.grips) :
    ¬ here.holds t m := by
  cases here <;> simp_all [LabAt.grips, LabAt.past, LabAt.holds]

theorem Inv.owner_of_grips (inv : Inv mode s) (started : mode.starts t)
    (grips : (s.labs t).here.grips) : s.owner t.first = some t :=
  inv.owned t.first t started ((grips.holds_iff t _).mpr rfl) fun _ => grips

theorem recursive_step (inv : Inv mode s) (started : mode.starts .aa) (quiet : ¬ (s.labs .aa).pending)
    (before : ¬ (s.labs .aa).here.past) (moved : Move pretends .aa s s') :
    ¬ (s'.labs .aa).here.past := by
  by_cases grips : (s.labs .aa).here.grips
  · exact (grips_of_move grips (inv.owner_of_grips started grips) quiet moved).not_past
  · cases moved with
    | allowSignal here | lockFirst here => simp [State.goto, LabAt.past, Lab.afterFirst]
    | msleep here | wake here | lockSecond here | interrupted here => simp [here, LabAt.grips] at grips
    | unlockSecond here | unlockFirst here | waitStop here => simp [here, LabAt.past] at before

theorem crossed_step (inv : Inv .abba s) (lost : Lost .abba s) (trapped : Trapped .abba s)
    (started : Mode.abba.starts t) (moved : Move pretends t s s') : Trapped .abba s' := by
  obtain ⟨ab, ba⟩ := trapped
  cases t with
  | aa => contradiction
  | ab =>
      refine ⟨grips_of_move ab (inv.owner_of_grips (t := .ba) rfl ba) (lost .ab rfl).2 moved, ?_⟩
      rwa [move_labs moved (by decide)]
  | ba =>
      refine ⟨?_, grips_of_move ba (inv.owner_of_grips (t := .ab) rfl ab) (lost .ba rfl).2 moved⟩
      rwa [move_labs moved (by decide)]

theorem trapped_step {event : Event} (inv : Inv mode s) (lost : Lost mode s) (trapped : Trapped mode s)
    (fired : Fires (step mode escapeMs pretends) s event s') : Trapped mode s' := by
  cases event with
  | lab t =>
      obtain ⟨started, moved⟩ := step_lab fired
      cases mode with
      | aaMutex =>
          cases t with
          | aa => exact recursive_step inv rfl (lost .aa rfl).2 trapped moved
          | ab | ba => contradiction
      | abba => exact crossed_step inv lost trapped started moved
  | watchdog =>
      have effect := watchdog_effect fired
      cases mode with
      | aaMutex =>
          show ¬ _
          rwa [effect.here]
      | abba =>
          show _ ∧ _
          rwa [effect.here, effect.here]
  | pass ms =>
      cases fired
      cases mode with
      | aaMutex => exact trapped
      | abba => exact trapped

theorem Trapped.not_past (trapped : Trapped mode s) (started : mode.starts t) :
    ¬ (s.labs t).here.past := by
  cases mode with
  | aaMutex =>
      cases t with
      | aa => exact trapped
      | ab | ba => contradiction
  | abba =>
      cases t with
      | aa => contradiction
      | ab => exact trapped.1.not_past
      | ba => exact trapped.2.not_past

theorem doomed_of_trapped (inv : Inv mode s) (lost : Lost mode s) (trapped : Trapped mode s)
    (started : mode.starts t) : Doomed mode escapeMs pretends s t := by
  intro events s' run
  have stays := run.invariant (fun s => Inv mode s ∧ Lost mode s ∧ Trapped mode s) ⟨inv, lost, trapped⟩
    fun before event after ⟨inv, lost, trapped⟩ fired =>
      ⟨inv_step inv fired, lost_step lost fired, trapped_step inv lost trapped fired⟩
  exact stays.2.2.not_past started

/-! ## The way out -/

def Finishes (mode : Mode) (escapeMs : Int32) (pretends : Bool) (t : Lab) (s : State) : Prop :=
  ∃ events s', Run (Fires (step mode escapeMs pretends)) s events s' ∧
    (s'.labs t).here = .waitStop ∧ ∀ u ≠ t, s'.labs u = s.labs u

namespace Finishes

theorem of_move (started : mode.starts t) (moved : Move pretends t s s')
    (finishes : Finishes mode escapeMs pretends t s') : Finishes mode escapeMs pretends t s := by
  obtain ⟨events, last, run, here, others⟩ := finishes
  have fired : Fires (step mode escapeMs pretends) s (.lab t) s' := by
    rw [Fires, step, if_pos started]
    exact labFn_eq_some.mpr moved
  refine ⟨.lab t :: events, last, run.cons fired, here, fun u different => ?_⟩
  rw [others u different, move_labs moved different]

theorem of_pass (ms : Nat) (finishes : Finishes mode escapeMs pretends t { s with now := s.now + ms }) :
    Finishes mode escapeMs pretends t s := by
  obtain ⟨events, last, run, here, others⟩ := finishes
  exact ⟨.pass ms :: events, last, run.cons rfl, here, others⟩

theorem of_past (started : mode.starts t) (past : (s.labs t).here.past) :
    Finishes mode escapeMs pretends t s := by
  have waitStop : ∀ s : State, (s.labs t).here = .waitStop → Finishes mode escapeMs pretends t s :=
    fun s here => ⟨[], s, .nil, here, fun _ _ => rfl⟩
  have unlockFirst : ∀ s : State, (s.labs t).here = .unlockFirst →
      Finishes mode escapeMs pretends t s :=
    fun s here => of_move started (.unlockFirst here) (waitStop _ (by simp [State.goto]))
  cases here : (s.labs t).here with
  | waitStop => exact waitStop s here
  | unlockFirst => exact unlockFirst s here
  | unlockSecond => exact of_move started (.unlockSecond here) (unlockFirst _ (by simp [State.goto]))
  | allowSignal | lockFirst | msleep | asleep | lockSecond => simp [here, LabAt.past] at past

theorem of_grips (started : mode.starts t) (other : t ≠ .aa) (grips : (s.labs t).here.grips)
    (freed : s.owner t.second = none ∨ (s.labs t).pending) : Finishes mode escapeMs pretends t s := by
  have lockSecond : ∀ s : State, (s.labs t).here = .lockSecond →
      s.owner t.second = none ∨ (s.labs t).pending → Finishes mode escapeMs pretends t s := by
    intro s here freed
    cases held : s.owner t.second with
    | none => exact of_move started (.lockSecond here held) (of_past started (by simp [State.goto, LabAt.past]))
    | some holder =>
        have pending := freed.resolve_left (by simp [held])
        refine of_move started (.interrupted here held pending) (of_past started ?_)
        unfold afterSignal
        split
        all_goals simp [State.goto, LabAt.past]
  have asleep : ∀ (s : State) till, (s.labs t).here = .asleep till →
      s.owner t.second = none ∨ (s.labs t).pending → Finishes mode escapeMs pretends t s := by
    intro s till here freed
    refine of_pass till (of_move started (.wake here other (Nat.le_add_left till _)) ?_)
    exact lockSecond _ (by simp [State.goto]) (by simpa [State.goto] using freed)
  cases here : (s.labs t).here with
  | lockSecond => exact lockSecond s here freed
  | asleep till => exact asleep s till here freed
  | msleep =>
      refine of_move started (.msleep here other) (asleep _ (s.now + 300) (by simp [State.goto]) ?_)
      simpa [State.goto] using freed
  | allowSignal | lockFirst | unlockSecond | unlockFirst | waitStop => simp [here, LabAt.grips] at grips

theorem apart (other : t ≠ .aa) : t.second ≠ t.first := by
  cases t with
  | aa => contradiction
  | ab | ba => decide

theorem of_waiting (started : mode.starts t) (other : t ≠ .aa) (past : ¬ (s.labs t).here.past)
    (grips : ¬ (s.labs t).here.grips) (first : s.owner t.first = none)
    (second : s.owner t.second = none) : Finishes mode escapeMs pretends t s := by
  have lockFirst : ∀ s : State, (s.labs t).here = .lockFirst → s.owner t.first = none →
      s.owner t.second = none → Finishes mode escapeMs pretends t s := by
    intro s here first second
    have grips : t.afterFirst.grips := by
      cases t with
      | aa => contradiction
      | ab | ba => trivial
    refine of_move started (.lockFirst here first) (of_grips started other ?_ (Or.inl ?_))
    · simpa [State.goto] using grips
    · simpa [State.goto, State.lock, apart other] using second
  cases here : (s.labs t).here with
  | allowSignal => exact of_move started (.allowSignal here) (lockFirst _ (by simp [State.goto]) first second)
  | lockFirst => exact lockFirst s here first second
  | msleep | asleep | lockSecond => simp [here, LabAt.grips] at grips
  | unlockSecond | unlockFirst | waitStop => simp [here, LabAt.past] at past

theorem of_alone (inv : Inv mode s) (started : mode.starts t) (other : t ≠ .aa)
    (alone : ∀ m u, s.owner m = some u → u = t) : Finishes mode escapeMs pretends t s := by
  have free : ∀ m, ¬ (s.labs t).here.holds t m → s.owner m = none := by
    intro m unheld
    rw [Option.eq_none_iff_forall_ne_some]
    intro u owner
    obtain rfl := alone m u owner
    exact unheld (inv.holder m u owner).2
  by_cases past : (s.labs t).here.past
  · exact of_past started past
  by_cases grips : (s.labs t).here.grips
  · refine of_grips started other grips (Or.inl (free _ ?_))
    rw [grips.holds_iff]
    exact apart other
  · exact of_waiting started other past grips (free _ (LabAt.not_holds_of_waiting past grips))
      (free _ (LabAt.not_holds_of_waiting past grips))

end Finishes

def Lab.peer : Lab → Lab
  | .aa => .aa
  | .ab => .ba
  | .ba => .ab

theorem peer_of_starts (started : Mode.abba.starts t) (started' : Mode.abba.starts u) :
    u = t ∨ u = t.peer := by
  cases t <;> cases u <;> simp_all [Mode.starts, Lab.peer]

theorem not_doomed_of_finishes (finishes : Finishes mode escapeMs pretends t s) :
    ¬ Doomed mode escapeMs pretends s t := by
  intro doomed
  obtain ⟨events, last, run, here, -⟩ := finishes
  exact doomed events last run (by simp [here, LabAt.past])

theorem not_doomed_after_peer (inv : Inv .abba s) (started : Mode.abba.starts t)
    (finishes : Finishes .abba escapeMs pretends t.peer s) : ¬ Doomed .abba escapeMs pretends s t := by
  obtain ⟨events, middle, run, here, -⟩ := finishes
  have inv' := inv_of_run inv run
  have alone : ∀ m u, middle.owner m = some u → u = t := by
    intro m u owner
    obtain ⟨started', holds⟩ := inv'.holder m u owner
    refine (peer_of_starts started started').resolve_right ?_
    rintro rfl
    rw [here] at holds
    exact holds
  have other : t ≠ .aa := by
    rintro rfl
    contradiction
  have finishes : Finishes .abba escapeMs pretends t middle := .of_alone inv' started other alone
  obtain ⟨events', last, run', here', -⟩ := finishes
  intro doomed
  exact doomed _ last (run.append run') (by simp [here', LabAt.past])

theorem not_doomed_of_signal (inv : Inv .abba s) (started : Mode.abba.starts t)
    (rescued : (s.labs t).here.grips → (s.labs t.peer).here.grips → (s.labs t.peer).pending) :
    ¬ Doomed .abba escapeMs pretends s t := by
  have other : t ≠ .aa := by
    rintro rfl
    contradiction
  have peer : Mode.abba.starts t.peer ∧ t.peer ≠ .aa ∧ t.peer.second = t.first := by
    cases t with
    | aa => contradiction
    | ab | ba => decide
  obtain ⟨started', other', crossed⟩ := peer
  by_cases past : (s.labs t).here.past
  · exact not_doomed_of_finishes (.of_past started past)
  by_cases past' : (s.labs t.peer).here.past
  · exact not_doomed_after_peer inv started (.of_past started' past')
  by_cases grips' : (s.labs t.peer).here.grips
  · refine not_doomed_after_peer inv started (.of_grips started' other' grips' ?_)
    by_cases grips : (s.labs t).here.grips
    · exact Or.inr (rescued grips grips')
    · left
      rw [crossed, Option.eq_none_iff_forall_ne_some]
      intro u owner
      obtain ⟨started'', holds⟩ := inv.holder _ u owner
      rcases peer_of_starts started started'' with rfl | rfl
      · exact LabAt.not_holds_of_waiting past grips holds
      · rw [grips'.holds_iff] at holds
        cases t <;> contradiction
  · refine not_doomed_of_finishes (.of_alone inv started other fun m u owner => ?_)
    obtain ⟨started'', holds⟩ := inv.holder m u owner
    refine (peer_of_starts started started'').resolve_right ?_
    rintro rfl
    exact LabAt.not_holds_of_waiting past' grips' holds

theorem released_iff (inv : Inv mode s) :
    Released mode escapeMs pretends s ↔ ¬ (Lost mode s ∧ Trapped mode s) := by
  constructor
  · rintro released ⟨lost, trapped⟩
    obtain ⟨t, started⟩ : ∃ t, mode.starts t := by
      cases mode with
      | aaMutex => exact ⟨.aa, rfl⟩
      | abba => exact ⟨.ab, rfl⟩
    exact released (fun t started => (lost t started).1) t started (lost t started).2
      (doomed_of_trapped inv lost trapped started)
  · intro free sent t started quiet
    cases mode with
    | aaMutex =>
        cases t with
        | ab | ba => contradiction
        | aa =>
            refine not_doomed_of_finishes (.of_past started (not_not.mp fun before => free ⟨?_, before⟩))
            intro u started'
            cases u with
            | aa => exact ⟨sent .aa started', quiet⟩
            | ab | ba => contradiction
    | abba =>
        refine not_doomed_of_signal inv started fun grips grips' => not_not.mp fun quiet' => free ⟨?_, ?_⟩
        · intro u started'
          refine ⟨sent u started', ?_⟩
          rcases peer_of_starts started started' with rfl | rfl
          · exact quiet
          · exact quiet'
        · cases t with
          | aa => contradiction
          | ab => exact ⟨grips, grips'⟩
          | ba => exact ⟨grips', grips⟩

/-! ## Whole runs -/

section Runs

variable (mode : Mode) (escapeMs : Int32) (pretends : Bool) (events : List Event)

def SelfReleasing : Prop :=
  ∀ before s, before <+: events → Runs mode escapeMs pretends before s → Released mode escapeMs pretends s

/-- The watchdog sends the signal to a thread that has not called `allow_signal`. -/
def KilledEarly (t : Lab) : Prop :=
  ∃ before s, before ++ [.watchdog] <+: events ∧ Runs mode escapeMs pretends before s ∧
    s.watchdog = .kill t ∧ ¬ (s.labs t).allowed

/-- Each of the two threads holds its first mutex and is yet to take its second. -/
def Crossed : Prop :=
  ∃ before s, before <+: events ∧ Runs mode escapeMs pretends before s ∧
    (s.labs .ab).here.grips ∧ (s.labs .ba).here.grips

end Runs

theorem KilledEarly.mono {more : List Event} (early : KilledEarly mode escapeMs pretends events t)
    (longer : events <+: more) : KilledEarly mode escapeMs pretends more t := by
  obtain ⟨before, s, initial, rest⟩ := early
  exact ⟨before, s, initial.trans longer, rest⟩

theorem killedEarly_of_lost (run : Runs mode escapeMs pretends events s) (started : mode.starts t) :
    s.watchdog.sent t ∧ ¬ (s.labs t).pending → KilledEarly mode escapeMs pretends events t := by
  refine run.history_invariant (fun events s => s.watchdog.sent t ∧ ¬ (s.labs t).pending →
    KilledEarly mode escapeMs pretends events t) (fun lost => lost.1.elim) ?_
  rintro events before event after run ih fired ⟨sent, quiet⟩
  cases event with
  | lab u =>
      obtain ⟨-, moved⟩ := step_lab fired
      rw [move_watchdog moved, move_pending moved] at *
      exact (ih ⟨sent, quiet⟩).mono (List.prefix_append _ _)
  | watchdog =>
      have effect := watchdog_effect fired
      rw [effect.sent] at sent
      rw [effect.pending, not_or] at quiet
      rcases sent with already | now
      · exact (ih ⟨already, quiet.1⟩).mono (List.prefix_append _ _)
      · exact ⟨events, before, List.prefix_rfl, run, now, fun allowed => quiet.2 ⟨now, started, allowed⟩⟩
  | pass ms =>
      cases fired
      exact (ih ⟨sent, quiet⟩).mono (List.prefix_append _ _)

theorem state_of_prefix {before : List Event} (run : Runs mode escapeMs pretends events s)
    (initial : before <+: events) : ∃ middle rest, Runs mode escapeMs pretends before middle ∧
      Run (Fires (step mode escapeMs pretends)) middle rest s := by
  obtain ⟨rest, rfl⟩ := initial
  obtain ⟨middle, first, second⟩ := run.split
  exact ⟨middle, rest, first, second⟩

theorem state_of_killedEarly (run : Runs mode escapeMs pretends events s)
    (early : KilledEarly mode escapeMs pretends events t) :
    ∃ before middle rest, before <+: events ∧ Runs mode escapeMs pretends before middle ∧
      Run (Fires (step mode escapeMs pretends)) middle rest s ∧
      (middle.watchdog.sent t ∧ ¬ (middle.labs t).pending) ∧ ¬ (middle.labs t).allowed := by
  obtain ⟨before, first, initial, run₁, here, early⟩ := early
  obtain ⟨middle, rest, run₂, run₃⟩ := state_of_prefix run initial
  obtain ⟨first', run₁', fired⟩ := Run.snoc_iff.mp run₂
  obtain rfl := run₁.unique run₁'
  refine ⟨_, middle, rest, initial, run₂, run₃, ?_⟩
  have effect := watchdog_effect fired
  rw [effect.sent, effect.pending, effect.allowed]
  refine ⟨⟨Or.inr here, ?_⟩, early⟩
  rintro (pending | ⟨-, -, allowed⟩)
  · exact early ((inv_of_run inv_init run₁).pending t pending)
  · exact early allowed

theorem lost_of_killedEarly (run : Runs mode escapeMs pretends events s)
    (early : KilledEarly mode escapeMs pretends events t) :
    s.watchdog.sent t ∧ ¬ (s.labs t).pending := by
  obtain ⟨_, middle, rest, _, _, run, lost, _⟩ := state_of_killedEarly run early
  exact run.invariant (fun s => s.watchdog.sent t ∧ ¬ (s.labs t).pending) lost fun _ _ _ => discarded_step

theorem allowed_step {event : Event} (allowed : (s.labs t).allowed)
    (fired : Fires (step mode escapeMs pretends) s event s') : (s'.labs t).allowed := by
  cases event with
  | lab u =>
      obtain ⟨-, moved⟩ := step_lab fired
      rcases eq_or_ne t u with rfl | different
      · cases moved <;> simp [State.goto, State.lock, State.unlock, State.allowSignal, allowed]
      · rwa [move_labs moved different]
  | watchdog => rwa [(watchdog_effect fired).allowed]
  | pass ms =>
      cases fired
      exact allowed

theorem killedEarly_of_allowed {more : List Event} (run : Runs mode escapeMs pretends events s)
    (initial : events <+: more) (allowed : (s.labs t).allowed)
    (early : KilledEarly mode escapeMs pretends more t) : KilledEarly mode escapeMs pretends events t := by
  obtain ⟨before, first, initial', run', here, unready⟩ := early
  rcases List.prefix_or_prefix_of_prefix initial' initial with within | beyond
  · exact ⟨before, first, within, run', here, unready⟩
  rcases List.prefix_concat_iff.mp beyond with rfl | beyond
  · exact ⟨before, first, List.prefix_rfl, run', here, unready⟩
  obtain ⟨middle, rest, run'', later⟩ := state_of_prefix run' beyond
  obtain rfl := run.unique run''
  exact absurd (later.invariant (fun s => (s.labs t).allowed) allowed fun _ _ _ => allowed_step) unready

theorem self_releasing_iff (run : Runs mode escapeMs pretends events s) :
    SelfReleasing mode escapeMs pretends events ↔
      match mode with
      | .aaMutex => ¬ KilledEarly mode escapeMs pretends events .aa
      | .abba => ¬ (KilledEarly mode escapeMs pretends events .ab ∧
          KilledEarly mode escapeMs pretends events .ba ∧ Crossed mode escapeMs pretends events) := by
  cases mode with
  | aaMutex =>
      constructor
      · intro released early
        obtain ⟨before, middle, _, initial, run', _, lost, unready⟩ := state_of_killedEarly run early
        have inv := inv_of_run inv_init run'
        refine (released_iff inv).mp (released before middle initial run') ⟨?_, ?_⟩
        · intro t started
          cases t with
          | aa => exact lost
          | ab | ba => contradiction
        · have here := not_not.mp (mt (inv.allowed .aa).mpr unready)
          simp [Trapped, here, LabAt.past]
      · intro ready before middle initial run'
        apply (released_iff (inv_of_run inv_init run')).mpr
        rintro ⟨lost, _⟩
        exact ready <| (killedEarly_of_lost run' rfl (lost .aa rfl)).mono initial
  | abba =>
      constructor
      · rintro released ⟨early, early', before, middle, initial, run', grips, grips'⟩
        have inv := inv_of_run inv_init run'
        have lost : ∀ t, (middle.labs t).here.grips → KilledEarly .abba escapeMs pretends events t →
            middle.watchdog.sent t ∧ ¬ (middle.labs t).pending := by
          intro t grips early
          have allowed : (middle.labs t).allowed := by
            rw [inv.allowed]
            intro here
            simp [here, LabAt.grips] at grips
          exact lost_of_killedEarly run' (killedEarly_of_allowed run' initial allowed early)
        refine (released_iff inv).mp (released before middle initial run') ⟨?_, grips, grips'⟩
        intro t started
        cases t with
        | aa => contradiction
        | ab => exact lost .ab grips early
        | ba => exact lost .ba grips' early'
      · intro free before middle initial run'
        apply (released_iff (inv_of_run inv_init run')).mpr
        rintro ⟨lost, grips, grips'⟩
        exact free ⟨(killedEarly_of_lost run' rfl (lost .ab rfl)).mono initial,
          (killedEarly_of_lost run' rfl (lost .ba rfl)).mono initial,
          before, middle, initial, run', grips, grips'⟩

def afterRun (mode : Mode) (escapeMs : Int32) (events : List Event) : State :=
  (events.foldlM (step mode escapeMs false) .init).getD .init

def eager : List Event :=
  [.watchdog, .watchdog, .watchdog, .watchdog, .watchdog, .lab .ab, .lab .ab, .lab .ba, .lab .ba]

theorem eager_runs : Runs .abba 0 false eager (afterRun .abba 0 eager) := run_of_foldlM rfl

theorem eager_signals_are_lost : ¬ SelfReleasing .abba 0 false eager := by
  intro released
  have lost : Lost .abba (afterRun .abba 0 eager) := by
    intro t started
    cases t with
    | aa => contradiction
    | ab | ba => exact ⟨trivial, by decide⟩
  exact (released_iff (inv_of_run inv_init eager_runs)).mp
    (released eager _ List.prefix_rfl eager_runs) ⟨lost, trivial, trivial⟩

theorem self_releasing_iff_eager : SelfReleasing .abba 0 false eager ↔
    ¬ (KilledEarly .abba 0 false eager .ab ∧ KilledEarly .abba 0 false eager .ba ∧
      Crossed .abba 0 false eager) :=
  self_releasing_iff eager_runs

end LinuxInterview.DlLab
