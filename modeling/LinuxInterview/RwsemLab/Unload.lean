import LinuxInterview.RwsemLab.Threads

/-!
# `lab_exit` comes to its end
-/

namespace LinuxInterview.RwsemLab
open Library

variable {s s' : State} {t : Lab}

def LabAt.standing (a : Access) : LabAt → Standing
  | .queued => .waiting a
  | .hold | .holding _ | .up => .holding a
  | .absent | .created | .down | .waitStop | .asleep _ | .returned => .outside

theorem LabAt.access_of_waiting {here : LabAt} {a b : Access} (waiting : here.standing a = .waiting b) : b = a := by
  cases here <;> simp_all [LabAt.standing]

theorem LabAt.of_holding {here : LabAt} {a b : Access} (holding : here.standing a = .holding b) :
    here ≠ .absent ∧ here ≠ .returned ∧ here ≠ .queued ∧ here ≠ .waitStop := by
  cases here <;> simp_all [LabAt.standing]

def State.standing (s : State) (t : Lab) : Standing := (s.labs t).standing t.access

namespace MainAt

def exiting : MainAt → Bool
  | .run _ | .pause _ _ | .loaded => false
  | .msleep _ | .stop _ | .wait _ | .unloaded => true

/-- The threads that `lab_init` has created. -/
def created : MainAt → Lab → Bool
  | .run .holder, _ => false
  | .pause .holder _, u | .run .rd1, u => u = .holder
  | .pause .rd1 _, u | .run .wr2, u => u ≠ .wr2
  | .pause .wr2 _, _ | .loaded, _ | .msleep _, _ | .stop _, _ | .wait _, _ | .unloaded, _ => true

theorem created_pause {t u : Lab} (other : u ≠ t) (till : Nat) :
    (MainAt.pause t till).created u = (MainAt.run t).created u := by
  cases t <;> cases u <;> first | rfl | contradiction

/-- The threads that `lab_exit` has waited for. -/
def waited : MainAt → Lab → Bool
  | .stop .wr2, u | .wait .wr2, u => u = .rd1
  | .stop .holder, u | .wait .holder, u => u ≠ .holder
  | .unloaded, _ => true
  | .run _, _ | .pause _ _, _ | .loaded, _ | .msleep _, _ | .stop .rd1, _ | .wait .rd1, _ => false

theorem waited_stopNext {t u : Lab} (other : u ≠ t) : t.stopNext.waited u = (MainAt.wait t).waited u := by
  cases t <;> cases u <;> first | rfl | contradiction

end MainAt

structure Inv (s : State) : Prop where
  sem : s.labSem.Agrees s.standing
  created : ∀ t, s.main.created t = true ↔ s.labs t ≠ .absent
  waited : ∀ t, s.main.waited t = true → s.labs t = .returned
  stopping : ∀ t, s.main = .wait t → s.shouldStop t = true
  released : s.main.exiting = true → s.releaseNow = true

theorem standing_goto {here : LabAt} {x : Standing} (stands : here.standing t.access = x) :
    (s.goto t here).standing = Function.update s.standing t x := by
  funext u
  rcases eq_or_ne u t with rfl | other
  · simp [State.standing, State.goto, stands]
  · simp [State.standing, State.goto, other]

/-- What a thread does: it goes on, and the lock follows where it stands with it. -/
inductive Move (s : State) (t : Lab) : State → Prop
  | goes {here : LabAt} (present : here ≠ .absent) (same : here.standing t.access = s.standing t) :
      Move s t (s.goto t here)
  | queues (outside : s.standing t = .outside) :
      Move s t { s.goto t .queued with labSem := s.labSem.enqueue t t.access }
  | takes {here : LabAt} {labSem : RwSem Lab} (holds : here.standing t.access = .holding t.access)
      (taken : s.labSem.take t = some labSem) : Move s t { s.goto t here with labSem := labSem }
  | leaves (holding : s.standing t = .holding t.access) :
      Move s t { s.goto t .waitStop with labSem := s.labSem.release t t.access }

theorem lab_moves (moved : lab t s = some s') :
    s.labs t ≠ .absent ∧ s.labs t ≠ .returned ∧ Move s t s' := by
  unfold lab at moved
  cases here : s.labs t with
  | absent => simp [here] at moved
  | returned => simp [here] at moved
  | created =>
      simp only [here, Option.some.injEq] at moved
      refine ⟨nofun, nofun, moved ▸ .goes ?_ ?_⟩ <;> split <;> simp [State.standing, here, LabAt.standing]
  | down =>
      simp only [here, Option.some.injEq] at moved
      refine ⟨nofun, nofun, moved ▸ .queues ?_⟩
      simp [State.standing, here, LabAt.standing]
  | queued =>
      simp only [here, Option.map_eq_some_iff] at moved
      obtain ⟨labSem, taken, rfl⟩ := moved
      refine ⟨nofun, nofun, .takes ?_ taken⟩
      split <;> rfl
  | hold =>
      simp only [here, Option.some.injEq] at moved
      refine ⟨nofun, nofun, moved ▸ .goes ?_ ?_⟩ <;> split <;> simp [State.standing, here, LabAt.standing]
  | holding till =>
      simp only [here, Option.ite_none_right_eq_some, Option.some.injEq] at moved
      refine ⟨nofun, nofun, moved.2 ▸ .goes ?_ ?_⟩ <;> simp [State.standing, here, LabAt.standing]
  | up =>
      simp only [here, Option.some.injEq] at moved
      refine ⟨nofun, nofun, moved ▸ .leaves ?_⟩
      simp [State.standing, here, LabAt.standing]
  | waitStop =>
      simp only [here, Option.some.injEq] at moved
      refine ⟨nofun, nofun, moved ▸ .goes ?_ ?_⟩ <;> split <;> simp [State.standing, here, LabAt.standing]
  | asleep till =>
      simp only [here, Option.ite_none_right_eq_some, Option.some.injEq] at moved
      refine ⟨nofun, nofun, moved.2 ▸ .goes ?_ ?_⟩ <;> simp [State.standing, here, LabAt.standing]

namespace Move

theorem agrees (move : Move s t s') (agrees : s.labSem.Agrees s.standing) : s'.labSem.Agrees s'.standing := by
  cases move with
  | goes present same =>
      rw [standing_goto same, Function.update_eq_self]
      exact agrees
  | queues outside =>
      change RwSem.Agrees _ (s.goto t .queued).standing
      rw [standing_goto rfl]
      exact agrees.enqueue outside t.access
  | @takes here labSem holds taken =>
      obtain ⟨a, waiting, after⟩ := agrees.take taken
      obtain rfl := LabAt.access_of_waiting waiting
      change RwSem.Agrees _ (s.goto t here).standing
      rw [standing_goto holds]
      exact after
  | leaves holding =>
      change RwSem.Agrees _ (s.goto t .waitStop).standing
      rw [standing_goto rfl]
      exact agrees.release holding

theorem labs_ne (move : Move s t s') {u : Lab} (other : u ≠ t) : s'.labs u = s.labs u := by
  cases move <;> simp [State.goto, other]

theorem same (move : Move s t s') :
    s'.now = s.now ∧ s'.releaseNow = s.releaseNow ∧ s'.shouldStop = s.shouldStop ∧ s'.main = s.main := by
  cases move <;> exact ⟨rfl, rfl, rfl, rfl⟩

theorem present (move : Move s t s') : s'.labs t ≠ .absent := by
  cases move with
  | goes present same => simpa [State.goto] using present
  | queues outside => simp [State.goto]
  | @takes here labSem holds taken =>
      have held : here ≠ .absent := by
        rintro rfl
        cases holds
      simpa [State.goto] using held
  | leaves holding => simp [State.goto]

end Move

/-! ## The invariant -/

theorem Inv.init : Inv .init where
  sem := .free fun _ => rfl
  created _ := iff_of_false nofun (not_not.mpr rfl)
  waited _ past := by cases past
  stopping _ at_ := by cases at_
  released exits := by cases exits

theorem Inv.pass (inv : Inv s) (ms : Nat) : Inv { s with now := s.now + ms } :=
  ⟨inv.sem, inv.created, inv.waited, inv.stopping, inv.released⟩

theorem Inv.lab (inv : Inv s) (moved : lab t s = some s') : Inv s' := by
  obtain ⟨there, running, move⟩ := lab_moves moved
  obtain ⟨-, release, stop, main⟩ := move.same
  refine ⟨move.agrees inv.sem, fun u => ?_, fun u past => ?_, ?_, ?_⟩
  · rw [main, inv.created u]
    rcases eq_or_ne u t with rfl | other
    · exact iff_of_true there move.present
    · rw [move.labs_ne other]
  · have returned := inv.waited u (main ▸ past)
    have other : u ≠ t := by
      rintro rfl
      exact running returned
    rwa [move.labs_ne other]
  · rw [main, stop]
    exact inv.stopping
  · rw [main, release]
    exact inv.released

/-- `lab_init` and `lab_exit` touch no thread once it is there. -/
theorem Inv.advance (inv : Inv s) (sem : s'.labSem = s.labSem) (labs : s'.labs = s.labs)
    (created : ∀ t, s'.main.created t = s.main.created t)
    (waited : ∀ t, s'.main.waited t = true → s.main.waited t = true ∨ s.labs t = .returned)
    (stopping : ∀ t, s'.main = .wait t → s'.shouldStop t = true)
    (released : s'.main.exiting = true → s'.releaseNow = true) : Inv s' where
  sem := by
    have same : s'.standing = s.standing := funext fun t => by rw [State.standing, State.standing, labs]
    rw [sem, same]
    exact inv.sem
  created t := by
    rw [created, labs]
    exact inv.created t
  waited t past := by
    rw [labs]
    exact (waited t past).elim (inv.waited t) id
  stopping := stopping
  released := released

theorem Inv.create (inv : Inv s) (at_ : s.main = .run t) (till : Nat) :
    Inv { s.goto t .created with main := .pause t till } where
  sem := by
    have absent : s.labs t = .absent := by
      by_contra there
      have ran := (inv.created t).mpr there
      rw [at_] at ran
      cases t <;> cases ran
    have outside : LabAt.created.standing t.access = s.standing t := by
      rw [State.standing, absent]
      rfl
    change s.labSem.Agrees (s.goto t .created).standing
    rw [standing_goto outside, Function.update_eq_self]
    exact inv.sem
  created u := by
    rcases eq_or_ne u t with rfl | other
    · exact iff_of_true (by cases u <;> rfl) (by simp [State.goto])
    · have before := inv.created u
      rw [at_, ← MainAt.created_pause other till] at before
      simpa [State.goto, other] using before
  waited _ past := by cases past
  stopping := nofun
  released := nofun

theorem Inv.main (inv : Inv s) (moved : main s = some s') : Inv s' := by
  have released := inv.released
  unfold RwsemLab.main at moved
  cases here : s.main with
  | run t =>
      simp only [here, Option.some.injEq] at moved
      subst moved
      exact inv.create here _
  | pause t till =>
      simp only [here, Option.ite_none_right_eq_some, Option.some.injEq] at moved
      obtain ⟨-, rfl⟩ := moved
      refine inv.advance ?_ ?_ ?_ ?_ ?_ ?_
      · rfl
      · rfl
      · intro u
        rw [here]
        cases t <;> rfl
      all_goals cases t <;> nofun
  | loaded =>
      simp only [here, Option.some.injEq] at moved
      subst moved
      exact inv.advance rfl rfl (fun _ => by rw [here]; rfl) nofun nofun fun _ => rfl
  | msleep till =>
      simp only [here, Option.ite_none_right_eq_some, Option.some.injEq] at moved released
      obtain ⟨-, rfl⟩ := moved
      exact inv.advance rfl rfl (fun _ => by rw [here]; rfl) nofun nofun released
  | stop t =>
      simp only [here, Option.some.injEq] at moved released
      subst moved
      refine inv.advance ?_ ?_ ?_ ?_ ?_ ?_
      · rfl
      · rfl
      · intro u
        rw [here]
        rfl
      · intro u past
        rw [here]
        cases t <;> exact .inl past
      · rintro u at_
        cases at_
        exact Function.update_self _ _ _
      · exact released
  | wait t =>
      simp only [here, Option.ite_none_right_eq_some, Option.some.injEq] at moved released
      obtain ⟨returned, rfl⟩ := moved
      refine inv.advance ?_ ?_ ?_ ?_ ?_ ?_
      · rfl
      · rfl
      · intro u
        rw [here]
        cases t <;> rfl
      · intro u past
        rcases eq_or_ne u t with rfl | other
        · exact .inr returned
        · rw [here, ← MainAt.waited_stopNext other]
          exact .inl past
      · cases t <;> nofun
      · exact fun _ => released rfl
  | unloaded => simp [here] at moved

theorem inv_of_run {events : List Event} (run : Runs events s) : Inv s := by
  apply run.invariant Inv Inv.init
  intro before event after inv fired
  cases event with
  | main => exact inv.main fired
  | lab t => exact inv.lab fired
  | pass ms =>
      cases fired
      exact inv.pass ms

/-! ## Somebody can always go on -/

def LabAt.rank : LabAt → Nat
  | .absent => 10
  | .created => 9
  | .down => 8
  | .queued => 7
  | .holding _ => 6
  | .hold => 5
  | .up => 4
  | .asleep _ => 3
  | .waitStop => 2
  | .returned => 0

def MainAt.rank : MainAt → Nat
  | .run _ | .pause _ _ | .loaded => 8
  | .msleep _ => 7
  | .stop .rd1 => 6
  | .wait .rd1 => 5
  | .stop .wr2 => 4
  | .wait .wr2 => 3
  | .stop .holder => 2
  | .wait .holder => 1
  | .unloaded => 0

theorem rank_lt (release : s.releaseNow = true) (stop : s.labs t = .waitStop → s.shouldStop t = true)
    (moved : lab t s = some s') : (s'.labs t).rank < (s.labs t).rank := by
  unfold lab at moved
  cases here : s.labs t with
  | absent => simp [here] at moved
  | returned => simp [here] at moved
  | queued =>
      simp only [here, Option.map_eq_some_iff] at moved
      obtain ⟨labSem, -, rfl⟩ := moved
      cases t <;> simp [State.goto, LabAt.rank]
  | created =>
      simp only [here, Option.some.injEq] at moved
      subst moved
      cases stopped : s.shouldStop t <;> simp [State.goto, LabAt.rank]
  | hold | waitStop =>
      simp only [here, Option.some.injEq] at moved
      subst moved
      simp_all [State.goto, LabAt.rank]
  | down | up =>
      simp only [here, Option.some.injEq] at moved
      subst moved
      simp [State.goto, LabAt.rank]
  | holding till | asleep till =>
      simp only [here, Option.ite_none_right_eq_some, Option.some.injEq] at moved
      obtain ⟨-, rfl⟩ := moved
      simp [State.goto, LabAt.rank]

/-- Only the queue holds a thread up. -/
theorem exists_lab (there : s.labs t ≠ .absent) (running : s.labs t ≠ .returned) (free : s.labs t ≠ .queued) :
    ∃ ms s', lab t { s with now := s.now + ms } = some s' := by
  simp only [← Option.isSome_iff_exists]
  cases here : s.labs t with
  | absent | returned | queued => contradiction
  | created | down | hold | up | waitStop => exact ⟨0, by simp [lab, here]⟩
  | holding till | asleep till => exact ⟨till, by simp [lab, here]⟩

theorem exists_take (inv : Inv s) (nobody : ∀ u a, s.standing u ≠ .holding a) (queued : s.labs t = .queued) :
    ∃ u s', lab u s = some s' ∧ s.labs u = .queued := by
  have waiting : s.standing t = .waiting t.access := by
    rw [State.standing, queued]
    rfl
  obtain ⟨u, labSem, taken⟩ := inv.sem.exists_take nobody waiting
  obtain ⟨a, waiting, -⟩ := inv.sem.take taken
  have here : s.labs u = .queued := by
    rw [State.standing] at waiting
    cases at_ : s.labs u <;> simp_all [LabAt.standing]
  have moved : (lab u s).isSome = true := by simp [lab, here, taken]
  exact ⟨u, _, Option.some_get moved |>.symm, here⟩

/-- While `lab_exit` waits for a thread, that one or another gets nearer to its end. -/
theorem exists_advance (inv : Inv s) (waiting : s.main = .wait t) (running : s.labs t ≠ .returned) :
    ∃ u ms s', lab u { s with now := s.now + ms } = some s' ∧ (s'.labs u).rank < (s.labs u).rank := by
  have exiting : s.main.exiting = true := by rw [waiting]; rfl
  have release := inv.released exiting
  by_cases queued : s.labs t = .queued
  · by_cases held : ∃ u a, s.standing u = .holding a
    · obtain ⟨u, a, holding⟩ := held
      obtain ⟨there, running, free, busy⟩ := LabAt.of_holding holding
      obtain ⟨ms, s', moved⟩ := exists_lab there running free
      have nearer := rank_lt (s := { s with now := s.now + ms }) release (absurd · busy) moved
      exact ⟨u, ms, s', moved, nearer⟩
    · simp only [not_exists] at held
      obtain ⟨u, s', moved, here⟩ := exists_take inv held queued
      refine ⟨u, 0, s', moved, rank_lt release (fun idle => ?_) moved⟩
      rw [here] at idle
      contradiction
  · have there : s.labs t ≠ .absent := by
      apply (inv.created t).mp
      rw [waiting]
      rfl
    obtain ⟨ms, s', moved⟩ := exists_lab there running queued
    have stop := inv.stopping t waiting
    have nearer := rank_lt (s := { s with now := s.now + ms }) release (fun _ => stop) moved
    exact ⟨t, ms, s', moved, nearer⟩

theorem main_advances (exiting : s.main.exiting = true) (loaded : s.main ≠ .unloaded)
    (free : ∀ t, s.main = .wait t → s.labs t = .returned) :
    ∃ ms s', main { s with now := s.now + ms } = some s' ∧ s'.main.rank < s.main.rank ∧
      s'.main.exiting = true ∧ s'.labs = s.labs := by
  cases here : s.main with
  | run t | pause t till | loaded => simp [here, MainAt.exiting] at exiting
  | unloaded => contradiction
  | msleep till =>
      refine ⟨till, { s with now := s.now + till, main := .stop .rd1 }, by simp [main], ?_, rfl, rfl⟩
      exact Nat.lt_succ_self _
  | stop t =>
      refine ⟨0, { s with shouldStop := Function.update s.shouldStop t true, main := .wait t },
        by simp [main], ?_, rfl, rfl⟩
      cases t <;> exact Nat.lt_succ_self _
  | wait t =>
      have returned := free t here
      refine ⟨0, { s with main := t.stopNext }, by simp [main, returned], ?_⟩
      cases t <;> simp [MainAt.rank, MainAt.exiting, Lab.stopNext]

def State.rank (s : State) : Nat :=
  s.main.rank + (s.labs .holder).rank + (s.labs .rd1).rank + (s.labs .wr2).rank

theorem rank_lt_of_lab {ms : Nat} (moved : lab t { s with now := s.now + ms } = some s')
    (nearer : (s'.labs t).rank < (s.labs t).rank) : s'.rank < s.rank := by
  obtain ⟨-, -, move⟩ := lab_moves moved
  have main : s'.main = s.main := move.same.2.2.2
  have others u (other : u ≠ t) : s'.labs u = s.labs u := move.labs_ne other
  unfold State.rank
  rw [main]
  cases t with
  | holder =>
      rw [others .rd1 (by decide), others .wr2 (by decide)]
      omega
  | rd1 =>
      rw [others .holder (by decide), others .wr2 (by decide)]
      omega
  | wr2 =>
      rw [others .holder (by decide), others .rd1 (by decide)]
      omega

theorem exists_unloaded (inv : Inv s) (exiting : s.main.exiting = true) :
    ∃ events s', Run (Fires step) s events s' ∧ s'.main = .unloaded := by
  induction measured : s.rank using Nat.strong_induction_on generalizing s with
  | _ n ih =>
      by_cases unloaded : s.main = .unloaded
      · exact ⟨[], s, .nil, unloaded⟩
      · by_cases blocked : ∃ t, s.main = .wait t ∧ s.labs t ≠ .returned
        · obtain ⟨t, waiting, running⟩ := blocked
          obtain ⟨u, ms, after, moved, nearer⟩ := exists_advance inv waiting running
          have main : after.main = s.main := (lab_moves moved).2.2.same.2.2.2
          obtain ⟨events, s', run, unloads⟩ := ih after.rank (measured ▸ rank_lt_of_lab moved nearer)
            ((inv.pass ms).lab moved) (main ▸ exiting) rfl
          exact ⟨.pass ms :: .lab u :: events, s', .cons rfl (.cons moved run), unloads⟩
        · have free t (waiting : s.main = .wait t) : s.labs t = .returned := by
            by_contra running
            exact blocked ⟨t, waiting, running⟩
          obtain ⟨ms, after, moved, nearer, exiting, labs⟩ := main_advances exiting unloaded free
          have less : after.rank < n := by
            rw [← measured, State.rank, labs]
            unfold State.rank
            omega
          obtain ⟨events, s', run, unloads⟩ := ih after.rank less ((inv.pass ms).main moved) exiting rfl
          exact ⟨.pass ms :: .main :: events, s', .cons rfl (.cons moved run), unloads⟩

theorem lab_exit_never_deadlocks {events : List Event} (run : Runs events s)
    (exiting : s.main.exiting = true) :
    (∀ t, s.main = .wait t → s.labs t ≠ .returned →
        ∃ u ms, (lab u { s with now := s.now + ms }).isSome = true) ∧
      (∃ later s', Run (Fires step) s later s' ∧ s'.main = .unloaded) ∧
      (s.main = .unloaded → s.labSem = .free ∧ ∀ t, s.labs t = .returned) := by
  have inv := inv_of_run run
  refine ⟨fun t waiting running => ?_, exists_unloaded inv exiting, fun unloaded => ?_⟩
  · obtain ⟨u, ms, s', moved, -⟩ := exists_advance inv waiting running
    exact ⟨u, ms, Option.isSome_iff_exists.mpr ⟨s', moved⟩⟩
  · have returned t : s.labs t = .returned := inv.waited t (by rw [unloaded]; rfl)
    refine ⟨inv.sem.eq_free fun t => ?_, returned⟩
    rw [State.standing, returned]
    rfl

/-- The reader and the second writer queue behind the holder, and the module is unloaded. -/
def contended : List Event :=
  [.main, .lab .holder, .lab .holder, .lab .holder, .lab .holder, .pass 300, .main, .main, .lab .rd1,
    .lab .rd1, .pass 200, .main, .main, .lab .wr2, .lab .wr2, .pass 200, .main, .main, .pass 500, .main, .main]

theorem lab_exit_never_deadlocks_contended :
    ∃ s, Runs contended s ∧ s.main = .wait .rd1 ∧ s.labs .rd1 = .queued ∧
      (∃ u ms, (lab u { s with now := s.now + ms }).isSome = true) ∧
      ∃ later s', Run (Fires step) s later s' ∧ s'.main = .unloaded := by
  have reached : (contended.foldlM step .init).map (fun s => (s.main, s.labs .rd1)) =
      some (.wait .rd1, .queued) := by decide
  obtain ⟨s, fired, here⟩ := Option.map_eq_some_iff.mp reached
  obtain ⟨waiting, queued⟩ := Prod.mk.inj here
  have run : Runs contended s := run_of_foldlM fired
  obtain ⟨moves, ends, -⟩ := lab_exit_never_deadlocks run (by rw [waiting]; rfl)
  exact ⟨s, run, waiting, queued, moves .rd1 waiting (by rw [queued]; nofun), ends⟩

end LinuxInterview.RwsemLab
