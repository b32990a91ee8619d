import LinuxInterview.LockBench.Threads

/-!
# Whose counts a round prints
-/

namespace LinuxInterview.LockBench
open Library

/-- Whose counts the arrays hold at an index. -/
def Holds (l : Ledger) (s : State) (i : Nat) : Prop :=
  match s.thr i with
  | .absent | .failed | .made => l.ran i = none ∧ s.ops i = 0 ∧ (s.t_nvcsw i, s.t_nivcsw i) = l.left i
  | .benching => l.ran i = none ∧ s.ops i = 0 ∧ (s.t_nvcsw i, s.t_nivcsw i) = l.began i
  | .stored | .gone => l.ran i = some ⟨s.ops i, s.t_nvcsw i, s.t_nivcsw i⟩

structure Kept (l : Ledger) (s : State) : Prop where
  nthr : l.nthr = s.nthr
  reached : s.i ≤ s.nthr
  ahead : ∀ i, s.i ≤ i → s.thr i = .absent
  behind : ∀ i < s.i, s.thr i ≠ .absent
  running : s.running = ∑ i ∈ Finset.range s.nthr, (s.thr i).awaited
  idle : s.busy = false → ∀ i < s.nthr, (s.thr i).awaited = 0
  failed : ∀ i, l.failed i = true ↔ s.thr i = .failed
  holds : ∀ i, Holds l s i

namespace Kept

variable {l : Ledger} {s : State}

theorem init : Kept .init .init where
  nthr := rfl
  reached := le_rfl
  ahead _ _ := rfl
  behind _ below := absurd below (Nat.not_lt_zero _)
  running := rfl
  idle _ _ below := absurd below (Nat.not_lt_zero _)
  failed _ := by simp [Ledger.init, State.init]
  holds _ := ⟨rfl, rfl, rfl⟩

/-- Once `running` is 0, every index of the round is done with. -/
theorem settled (kept : Kept l s) (zero : s.running ≤ 0) : ∀ i < s.nthr, (s.thr i).awaited = 0 := by
  have sum : ∑ i ∈ Finset.range s.nthr, (s.thr i).awaited = 0 := by
    apply le_antisymm (kept.running ▸ zero)
    exact Finset.sum_nonneg fun i _ => (s.thr i).awaited_nonneg
  intro i below
  exact (Finset.sum_eq_zero_iff_of_nonneg fun i _ => (s.thr i).awaited_nonneg).mp sum i
    (Finset.mem_range.mpr below)

theorem inside (kept : Kept l s) {i : Nat} (there : s.thr i ≠ .absent) : i < s.nthr := by
  apply lt_of_lt_of_le _ kept.reached
  by_contra past
  exact there (kept.ahead i (not_lt.mp past))

theorem quiet (kept : Kept l s) (idle : s.busy = false) (i : Nat) :
    s.thr i = .absent ∨ s.thr i = .failed ∨ s.thr i = .gone := by
  rcases eq_or_ne (s.thr i) .absent with absent | there
  · exact .inl absent
  · have settled := kept.idle idle i (kept.inside there)
    cases at_ : s.thr i
    all_goals simp_all [Thread.awaited]

theorem enter (kept : Kept l s) (idle : s.busy = false) (nthr : Nat) :
    Kept (l.note (.enter nthr)) (s.next (.enter nthr)) where
  nthr := rfl
  reached := Nat.zero_le _
  ahead _ _ := rfl
  behind _ below := absurd below (Nat.not_lt_zero _)
  running := by simp [State.next, Thread.awaited]
  idle := nofun
  failed _ := by simp [Ledger.note, State.next]
  holds i := by
    have before := kept.holds i
    unfold Holds at before
    refine ⟨rfl, rfl, ?_⟩
    rcases kept.quiet idle i with at_ | at_ | at_
    all_goals
      rw [at_] at before
      simp_all [Ledger.note, State.next]

/-- What is left to show of a step that a thread takes. -/
theorem move {l' : Ledger} {s' : State} {i : Nat} {t : Thread} (kept : Kept l s)
    (live : (s.thr i).live = true) (present : t ≠ .absent) (created : t ≠ .failed)
    (thr : s'.thr = Function.update s.thr i t)
    (main : s'.busy = s.busy ∧ s'.nthr = s.nthr ∧ s'.i = s.i)
    (round : l'.nthr = l.nthr ∧ l'.failed = l.failed)
    (running : s'.running = s.running - 1 + t.awaited) (here : Holds l' s' i)
    (elsewhere : ∀ j ≠ i, Holds l s j → Holds l' s' j) : Kept l' s' := by
  obtain ⟨busy, nthr, next⟩ := main
  obtain ⟨there, mine, counted⟩ := Thread.live_spec live
  have inside := kept.inside there
  have away : ∀ j, s.i ≤ j → j ≠ i := by
    rintro j past rfl
    exact there (kept.ahead j past)
  exact
  { nthr := by rw [round.1, nthr, kept.nthr]
    reached := by rw [next, nthr]; exact kept.reached
    ahead := by
      intro j past
      rw [next] at past
      rw [thr, Function.update_of_ne (away j past)]
      exact kept.ahead j past
    behind := by
      intro j below
      rw [next] at below
      rw [thr]
      rcases eq_or_ne j i with rfl | other
      · rwa [Function.update_self]
      · rw [Function.update_of_ne other]
        exact kept.behind j below
    running := by
      rw [running, nthr, thr, sum_update_of_mem Thread.awaited s.thr (Finset.mem_range.mpr inside),
        kept.running, counted]
    idle := by
      intro idle
      rw [busy] at idle
      have settled := kept.idle idle i inside
      rw [counted] at settled
      contradiction
    failed := by
      intro j
      rw [round.2, kept.failed j, thr]
      rcases eq_or_ne j i with rfl | other
      · rw [Function.update_self]
        exact iff_of_false mine created
      · rw [Function.update_of_ne other]
    holds := by
      intro j
      rcases eq_or_ne j i with rfl | other
      · exact here
      · exact elsewhere j other (kept.holds j) }

theorem start (kept : Kept l s) {idx : Nat} (made : s.thr idx = .made) (v iv : UInt64) :
    Kept (l.note (.start idx v iv)) (s.next (.start idx v iv)) := by
  have before := kept.holds idx
  have live : (s.thr idx).live = true := by rw [made]; rfl
  refine kept.move (t := .benching) live nofun nofun rfl ⟨rfl, rfl, rfl⟩ ⟨rfl, rfl⟩ ?_ ?_ ?_
  · simp [State.next, Thread.awaited]
  · simp_all [Holds, Ledger.note, State.next]
  · intro j other holds
    simpa [Holds, Ledger.note, State.next, other] using holds

theorem store (kept : Kept l s) {idx : Nat} (benching : s.thr idx = .benching) (n v iv : UInt64) :
    Kept (l.note (.store idx n v iv)) (s.next (.store idx n v iv)) := by
  have before := kept.holds idx
  have live : (s.thr idx).live = true := by rw [benching]; rfl
  refine kept.move (t := .stored) live nofun nofun rfl ⟨rfl, rfl, rfl⟩ ⟨rfl, rfl⟩ ?_ ?_ ?_
  · simp [State.next, Thread.awaited]
  · rw [Holds, benching] at before
    simp [Holds, Ledger.note, State.next, ← before.2.2]
  · intro j other holds
    simpa [Holds, Ledger.note, State.next, other] using holds

theorem dec (kept : Kept l s) {idx : Nat} (stored : s.thr idx = .stored) :
    Kept (l.note (.dec idx)) (s.next (.dec idx)) := by
  have before := kept.holds idx
  have live : (s.thr idx).live = true := by rw [stored]; rfl
  refine kept.move (t := .gone) live nofun nofun rfl ⟨rfl, rfl, rfl⟩ ⟨rfl, rfl⟩ ?_ ?_ ?_
  · simp [State.next, Thread.awaited]
  · rw [Holds, stored] at before
    simpa [Holds, Ledger.note, State.next] using before
  · intro j other holds
    simpa [Holds, Ledger.note, State.next, other] using holds

/-- What is left to show of `kthread_create` for the index the loop has reached. -/
theorem place {l' : Ledger} {s' : State} {t : Thread} (kept : Kept l s) (room : s.i < s.nthr)
    (present : t ≠ .absent) (thr : s'.thr = Function.update s.thr s.i t)
    (main : s'.busy = true ∧ s'.nthr = s.nthr ∧ s'.i = s.i + 1) (nthr : l'.nthr = l.nthr)
    (running : s'.running = s.running - 1 + t.awaited) (failed : l'.failed s.i = true ↔ t = .failed)
    (here : Holds l' s' s.i)
    (elsewhere : ∀ j ≠ s.i, l'.failed j = l.failed j ∧ (Holds l s j → Holds l' s' j)) : Kept l' s' := by
  obtain ⟨busy, same, next⟩ := main
  have absent := kept.ahead s.i le_rfl
  exact
  { nthr := by rw [nthr, same, kept.nthr]
    reached := by rw [next, same]; exact room
    ahead := by
      intro j past
      rw [next] at past
      rw [thr, Function.update_of_ne (Nat.lt_of_succ_le past).ne']
      exact kept.ahead j (Nat.le_of_succ_le past)
    behind := by
      intro j below
      rw [next] at below
      rw [thr]
      rcases Nat.lt_succ_iff_lt_or_eq.mp below with earlier | rfl
      · rw [Function.update_of_ne earlier.ne]
        exact kept.behind j earlier
      · rwa [Function.update_self]
    running := by
      rw [running, same, thr, sum_update_of_mem Thread.awaited s.thr (Finset.mem_range.mpr room),
        kept.running, absent]
      rfl
    idle := by
      intro idle
      rw [busy] at idle
      contradiction
    failed := by
      intro j
      rw [thr]
      rcases eq_or_ne j s.i with rfl | other
      · rwa [Function.update_self]
      · rw [(elsewhere j other).1, kept.failed j, Function.update_of_ne other]
    holds := by
      intro j
      rcases eq_or_ne j s.i with rfl | other
      · exact here
      · exact (elsewhere j other).2 (kept.holds j) }

theorem create (kept : Kept l s) (busy : s.busy = true) (room : s.i < s.nthr) (ok : Bool) :
    Kept (l.note (.create s.i ok)) (s.next (.create s.i ok)) := by
  have absent := kept.ahead s.i le_rfl
  have before := kept.holds s.i
  have unfailed := kept.failed s.i
  rw [Holds, absent] at before
  rw [absent] at unfailed
  cases ok
  · refine kept.place (t := .failed) room nofun rfl ⟨busy, rfl, rfl⟩ rfl (add_zero _).symm ?_ ?_ ?_
    · simp [Ledger.note]
    · simpa [Holds, Ledger.note, State.next] using before
    · intro j other
      simp [Holds, Ledger.note, State.next, other]
  · refine kept.place (t := .made) room nofun rfl ⟨busy, rfl, rfl⟩ rfl (sub_add_cancel _ _).symm ?_ ?_ ?_
    · simpa [Ledger.note] using unfailed
    · simpa [Holds, Ledger.note, State.next] using before
    · intro j other
      simp [Holds, Ledger.note, State.next, other]

theorem print (kept : Kept l s) (zero : s.running ≤ 0) (report : Report) :
    Kept (l.note (.print report)) (s.next (.print report)) :=
  { kept with idle := fun _ => kept.settled zero }

theorem step {s' : State} {e : Event} (kept : Kept l s) (action : LockBench.step s e s') :
    Kept (l.note e) s' := by
  obtain ⟨permitted, rfl⟩ := action
  cases e with
  | enter nthr => exact kept.enter permitted.1 nthr
  | create i ok =>
      obtain ⟨busy, rfl, room⟩ := permitted
      exact kept.create busy room ok
  | start idx v iv => exact kept.start permitted v iv
  | store idx n v iv => exact kept.store permitted n v iv
  | dec idx => exact kept.dec permitted
  | print report => exact kept.print permitted.2.2.1 report

end Kept

theorem kept_of_run {events : List Event} {s : State} (run : Runs events s) : Kept (ledger events) s := by
  apply run.history_invariant (fun events s => Kept (ledger events) s) Kept.init
  intro events before event after _ kept action
  rw [ledger, List.foldl_concat]
  exact kept.step action

/-! ## What is printed -/

/-- An index that is done with holds the counts of its thread, or what an earlier round left there. -/
theorem Kept.counts {l : Ledger} {s : State} (kept : Kept l s) {i : Nat} (settled : (s.thr i).awaited = 0) :
    s.ops i = (l.ran i).elim 0 Done.n ∧
      s.t_nvcsw i = (l.ran i).elim 0 Done.vcsw + (if l.failed i then (l.left i).1 else 0) ∧
      s.t_nivcsw i = (l.ran i).elim 0 Done.ivcsw + if l.failed i then (l.left i).2 else 0 := by
  have holds := kept.holds i
  have failed := kept.failed i
  unfold Holds at holds
  cases at_ : s.thr i
  all_goals simp only [at_, Thread.awaited, reduceCtorEq, one_ne_zero] at settled holds failed
  case failed =>
    obtain ⟨none, zero, left⟩ := holds
    simp [none, zero, failed, ← left]
  case gone =>
    simp [holds, failed]

theorem Kept.report {l : Ledger} {s : State} (kept : Kept l s) (zero : s.running ≤ 0) :
    s.report = ⟨l.sumRan Done.n, l.sumRan Done.vcsw + l.sumLeft Prod.fst,
      l.sumRan Done.ivcsw + l.sumLeft Prod.snd⟩ := by
  have counts i (inside : i ∈ Finset.range s.nthr) :=
    kept.counts (kept.settled zero i (Finset.mem_range.mp inside))
  rw [State.report, sumTo_eq_sum, sumTo_eq_sum, sumTo_eq_sum,
    Finset.sum_congr rfl fun i inside => (counts i inside).1,
    Finset.sum_congr rfl fun i inside => (counts i inside).2.1,
    Finset.sum_congr rfl fun i inside => (counts i inside).2.2,
    Finset.sum_add_distrib, Finset.sum_add_distrib, ← Finset.sum_filter, ← Finset.sum_filter, ← kept.nthr]
  rfl

/-- What every print of a run is to show: the sums over the threads that ran in its round. -/
def OwnCounts (events : List Event) : Prop :=
  ∀ before report, before ++ [.print report] <+: events →
    report = ⟨(ledger before).sumRan Done.n, (ledger before).sumRan Done.vcsw,
      (ledger before).sumRan Done.ivcsw⟩

/-- In every round that prints, the indices without a thread hold nothing from earlier rounds. -/
def NothingLeft (events : List Event) : Prop :=
  ∀ before report, before ++ [.print report] <+: events →
    (ledger before).sumLeft Prod.fst = 0 ∧ (ledger before).sumLeft Prod.snd = 0

theorem report_of_print {events before : List Event} {s : State} {report : Report} (run : Runs events s)
    (printed : before ++ [.print report] <+: events) :
    report = ⟨(ledger before).sumRan Done.n,
      (ledger before).sumRan Done.vcsw + (ledger before).sumLeft Prod.fst,
      (ledger before).sumRan Done.ivcsw + (ledger before).sumLeft Prod.snd⟩ := by
  obtain ⟨after, rfl⟩ := printed
  obtain ⟨_, earlier, -⟩ := Run.split run
  obtain ⟨s, earlier, ⟨-, -, zero, shown⟩, -⟩ := Run.snoc_iff.mp earlier
  rw [shown]
  exact (kept_of_run earlier).report zero

/-- `memset` clears `ops` alone. -/
theorem ownCounts_iff_nothingLeft {events : List Event} {s : State} (run : Runs events s) :
    OwnCounts events ↔ NothingLeft events := by
  apply forall₃_congr
  intro before report printed
  rw [report_of_print run printed]
  simp

def twoRounds (ok : Bool) : List Event :=
  [.enter 1, .create 0 true, .start 0 2 0, .store 0 100 7 3, .dec 0, .print ⟨100, 5, 3⟩,
    .enter 1, .create 0 ok] ++
    if ok then [.start 0 1 1, .store 0 50 1 2, .dec 0, .print ⟨50, 0, 1⟩] else [.print ⟨0, 5, 3⟩]

theorem ownCounts_iff_nothingLeft_refilled :
    Runs (twoRounds true) ((twoRounds true).foldl State.next .init) ∧
      (OwnCounts (twoRounds true) ↔ NothingLeft (twoRounds true)) := by
  have run : Runs (twoRounds true) ((twoRounds true).foldl State.next .init) :=
    run_of_permitted (by decide)
  exact ⟨run, ownCounts_iff_nothingLeft run⟩

/-- The second round has no thread, and prints the switches of the first. -/
theorem not_ownCounts_of_failed :
    ∃ s, Runs (twoRounds false) s ∧ ¬ OwnCounts (twoRounds false) := by
  refine ⟨_, run_of_permitted (by decide), ?_⟩
  intro own
  have last := own ((twoRounds false).dropLast) ⟨0, 5, 3⟩ ⟨[], rfl⟩
  revert last
  decide

end LinuxInterview.LockBench
