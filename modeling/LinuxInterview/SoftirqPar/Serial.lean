import LinuxInterview.SoftirqPar.OneTasklet

/-!
# What the one tasklet's callbacks leave in the counters
-/

namespace LinuxInterview.SoftirqPar.OneTasklet
open Library

/-- Where `bump` can be while its callback is at `phase`. -/
def Fits (phase : Phase) : Stage → Prop
  | .outside => phase ≠ .viewing ∧ phase ≠ .spinning
  | .reading _ | .swapping _ _ => phase = .bumping
  | .inside => phase = .bumping ∨ phase = .viewing ∨ phase = .spinning

def Phase.besideBump : Phase → Bool
  | .bumping | .viewing | .spinning => false
  | _ => true

theorem Fits.outside {phase : Phase} {stage : Stage} (fits : Fits phase stage) (beside : phase.besideBump = true) :
    stage = .outside := by
  cases stage with
  | outside => rfl
  | reading c =>
      obtain rfl : phase = .bumping := fits
      cases beside
  | swapping c m =>
      obtain rfl : phase = .bumping := fits
      cases beside
  | inside => rcases fits with rfl | rfl | rfl <;> cases beside

theorem Fits.inside {phase : Phase} {stage : Stage} (fits : Fits phase stage)
    (past : phase = .viewing ∨ phase = .spinning) : stage = .inside := by
  rcases past with rfl | rfl
  · cases stage with
    | outside => exact absurd rfl fits.1
    | inside => rfl
    | _ => cases fits
  · cases stage with
    | outside => exact absurd rfl fits.2
    | inside => rfl
    | _ => cases fits

/-- Called, and not yet counted in `runs`. -/
def Phase.unfinished : Phase → Bool
  | .out | .ending | .closing _ | .returning => false
  | _ => true

/-- Counted for its processor, and not yet in `runs`. -/
def Phase.counted : Phase → Bool
  | .bumping | .viewing | .spinning | .leaving => true
  | _ => false

theorem Phase.besideBump_of_uncounted {phase : Phase} (uncounted : phase.counted = false) : phase.besideBump = true := by
  cases phase <;> first | rfl | cases uncounted

theorem Phase.fits_outside {phase : Phase} (uncounted : phase.counted = false) : Fits phase .outside := by
  constructor <;> rintro rfl <;> cases uncounted

theorem Phase.ne_leaving {phase : Phase} (uncounted : phase.counted = false) : phase ≠ .leaving := by
  rintro rfl
  cases uncounted

/-- Past the access that reads `t->state`. -/
def Phase.seen (mode : Mode) : Phase → Bool
  | .checking _ | .storing _ | .marking | .counting | .bumping | .viewing => mode = .mode1
  | .spinning | .leaving => true
  | _ => false

/-- What `t_first` is to the starts of the callbacks, of which the last is at `phase`. -/
def First (begins : Set Nat) (t_first : Nat) : Phase → Prop
  | .seeing now | .checking now => (t_first = 0 ∧ begins = {now}) ∨ (0 < t_first ∧ IsLeast begins t_first)
  | .storing now => t_first = 0 ∧ begins = {now}
  | _ => (t_first = 0 ∧ begins = ∅) ∨ (0 < t_first ∧ IsLeast begins t_first)

def Last (ends : Set Nat) (t_last : Nat) : Phase → Prop
  | .closing now => IsGreatest ends now
  | _ => ends.Nonempty → IsGreatest ends t_last

namespace State

variable {ι : Type} [Fintype ι] {s s' : State ι} {n : Nat} {phase : Phase} {stage : Stage}

/-- The counters while the one callback that can be running is at `phase` and its `bump` at `stage`. -/
structure Counts (s : State ι) (n : Nat) (phase : Phase) (stage : Stage) : Prop where
  fits : Fits phase stage
  cur : s.counters.cur = if stage = .outside then 0 else 1
  reading : ∀ c, stage = .reading c → c = 1
  swapping : ∀ c m, stage = .swapping c m → c = 1 ∧ m = s.counters.maxcur
  maxcur : s.counters.maxcur = if 0 < s.runs ∨ stage = .inside ∨ phase = .leaving then 1 else 0
  called : n = s.runs + phase.unfinished.toNat
  each : ∑ i, s.per_cpu_runs i = s.runs + phase.counted.toNat

theorem counts_start : Counts (start : State ι) 0 .out .outside where
  fits := ⟨by simp, by simp⟩
  cur := rfl
  reading := by simp
  swapping := by simp
  maxcur := by simp [start, Counters.start]
  called := rfl
  each := by simp [start, Phase.counted]

theorem Counts.congr (counts : Counts s n phase stage) (counters : s'.counters = s.counters)
    (runs : s'.runs = s.runs) (per_cpu_runs : s'.per_cpu_runs = s.per_cpu_runs) : Counts s' n phase stage := by
  obtain ⟨fits, cur, reading, swapping, maxcur, called, each⟩ := counts
  exact ⟨fits, by rw [counters, cur], reading, by rw [counters]; exact swapping, by rw [counters, runs, maxcur],
    by rw [runs, called], by rw [runs, per_cpu_runs, each]⟩

theorem Counts.plain (counts : Counts s n phase stage) (beside : phase.besideBump = true) :
    stage = .outside ∧ Counts s n phase .outside := by
  obtain rfl := counts.fits.outside beside
  exact ⟨rfl, counts⟩

/-- A callback goes on outside `bump` without a change of a counter. -/
theorem Counts.goes {i : ι} (counts : Counts s n (s.phase i) (s.counters.stage i)) (here : s.phase i = phase) {phase' : Phase}
    (there : s'.phase i = phase')
    (same : s'.counters = s.counters ∧ s'.runs = s.runs ∧ s'.per_cpu_runs = s.per_cpu_runs)
    (before : phase.counted = false) (after : phase'.counted = false) (unfinished : phase'.unfinished = phase.unfinished) :
    Counts s' n (s'.phase i) (s'.counters.stage i) := by
  rw [here] at counts
  obtain ⟨outside, counts⟩ := counts.plain (Phase.besideBump_of_uncounted before)
  obtain ⟨-, cur, -, -, maxcur, called, each⟩ := counts.congr same.1 same.2.1 same.2.2
  rw [there, same.1, outside]
  refine ⟨Phase.fits_outside after, cur, by simp, by simp, ?_, unfinished ▸ called, ?_⟩
  · rw [maxcur]
    simp [Phase.ne_leaving before, Phase.ne_leaving after]
  · rw [each, before, after]

/-- A callback that has done its `bump` goes on before its decrement. -/
theorem Counts.go_inside (counts : Counts s n phase .inside) {phase' : Phase}
    (same : s'.counters = s.counters ∧ s'.runs = s.runs ∧ s'.per_cpu_runs = s.per_cpu_runs)
    (fits : Fits phase' .inside) : Counts s' n phase' .inside := by
  obtain ⟨fits', cur, reading, swapping, maxcur, called, each⟩ := counts.congr same.1 same.2.1 same.2.2
  have same : phase'.unfinished = phase.unfinished ∧ phase'.counted = phase.counted := by
    rcases fits with rfl | rfl | rfl <;> rcases fits' with rfl | rfl | rfl <;> exact ⟨rfl, rfl⟩
  exact ⟨fits, cur, reading, swapping, by simp [maxcur], same.1 ▸ called, same.2 ▸ each⟩

theorem sum_update_succ [DecidableEq ι] (f : ι → Nat) (i : ι) :
    ∑ j, Function.update f i (f i + 1) j = ∑ j, f j + 1 := by
  rw [Finset.sum_update_of_mem (Finset.mem_univ i), Finset.sdiff_singleton_eq_erase,
    ← Finset.add_sum_erase Finset.univ f (Finset.mem_univ i), Nat.add_right_comm]

variable [DecidableEq ι] {mode : Mode} {i : ι}

theorem Counts.kernel (inside : Inside s) (guards : Tasklet.Guards s.kernel)
    (counts : Counts s n (s.phase i) (s.counters.stage i)) {e : TaskletEvent ι}
    (permitted : s.permits (.kernel e)) (here : ∀ j, mover (.kernel e) = some j → j = i) :
    Counts (s.next mode (.kernel e)) (n + (Tasklet.calls e).toNat) ((s.next mode (.kernel e)).phase i)
      ((s.next mode (.kernel e)).counters.stage i) := by
  cases e with
  | clear j =>
      obtain rfl := here j rfl
      have locked : s.kernel.soft j = .locked := permitted.1
      have out : s.phase j = .out := (inside j).mpr (by simp [locked])
      rw [out] at counts
      have outside := counts.fits.outside rfl
      rw [outside] at counts
      have entered : Counts s (n + 1) mode.entry .outside := by
        obtain ⟨-, cur, -, -, maxcur, called, each⟩ := counts
        cases mode <;>
          exact ⟨⟨by simp [Mode.entry], by simp [Mode.entry]⟩, cur, by simp, by simp, by simpa [Mode.entry] using maxcur,
            congrArg (· + 1) called, each⟩
      rw [State.next, if_pos (guards.sched_of_locked locked)]
      simp only [State.goto, Function.update_self, outside]
      exact entered.congr rfl rfl rfl
  | ret j =>
      obtain rfl := here j rfl
      have returning : s.phase j = .returning := permitted.2
      exact counts.goes returning (Function.update_self ..) ⟨rfl, rfl, rfl⟩ rfl rfl rfl
  | _ => exact counts.congr rfl rfl rfl

theorem Counts.bump (counts : Counts s n (s.phase i) (s.counters.stage i)) {e : Event ι}
    (permitted : s.permits (.counters e)) (here : ∀ j, mover (.counters e) = some j → j = i) :
    Counts (s.next mode (.counters e)) n ((s.next mode (.counters e)).phase i)
      ((s.next mode (.counters e)).counters.stage i) := by
  obtain ⟨allowed, own⟩ := permitted
  cases e with
  | reset => cases own
  | incReturn j =>
      obtain rfl := here j rfl
      simp only [counting] at own
      have outside : s.counters.stage j = .outside := allowed
      rw [own, outside] at counts
      obtain ⟨-, cur, -, -, maxcur, called, each⟩ := counts
      simp only [State.next, Counters.next, Function.update_self, own]
      exact ⟨rfl, by simp [cur], by simp [cur], by simp, by simpa using maxcur, called, each⟩
  | readMax j =>
      obtain rfl := here j rfl
      simp only [counting] at own
      obtain ⟨c, reading⟩ := Stage.exists_of_isReading allowed
      rw [own, reading] at counts
      obtain ⟨-, cur, one, -, maxcur, called, each⟩ := counts
      obtain rfl := one c rfl
      simp only [State.next, Counters.next, reading, Function.update_self, own]
      by_cases high : 1 ≤ s.counters.maxcur
      · rw [if_pos high]
        have one : s.counters.maxcur = 1 := by
          rw [maxcur] at high ⊢
          split at high <;> simp_all
        exact ⟨.inl rfl, by simpa using cur, by simp, by simp, by simpa using one, called, each⟩
      · rw [if_neg high]
        exact ⟨rfl, by simpa using cur, by simp, by simp, by simpa using maxcur, called, each⟩
  | cmpxchg j =>
      obtain rfl := here j rfl
      simp only [counting] at own
      obtain ⟨c, m, swapping⟩ := Stage.exists_of_isSwapping allowed
      rw [own, swapping] at counts
      obtain ⟨-, cur, -, one, maxcur, called, each⟩ := counts
      obtain ⟨rfl, rfl⟩ := one c m rfl
      simp only [State.next, Counters.next, swapping, if_true, Function.update_self, own]
      exact ⟨.inl rfl, by simpa using cur, by simp, by simp, by simp, called, each⟩
  | dec j =>
      obtain rfl := here j rfl
      simp only [counting] at own
      have inside : s.counters.stage j = .inside := allowed
      rw [own, inside] at counts
      obtain ⟨-, cur, -, -, maxcur, called, each⟩ := counts
      simp only [State.next, State.goto, Counters.next, Function.update_self]
      exact ⟨⟨by simp, by simp⟩, by simp [cur], by simp, by simp, by simpa using maxcur, called, each⟩

theorem Counts.own (counts : Counts s n (s.phase i) (s.counters.stage i)) (permitted : s.permits (.own i)) :
    Counts (s.own mode i) n ((s.own mode i).phase i) ((s.own mode i).counters.stage i) := by
  cases phase : s.phase i with
  | seeing now =>
      simp only [State.own, phase]
      exact counts.goes phase (Function.update_self ..) ⟨rfl, rfl, rfl⟩ rfl rfl rfl
  | checking now =>
      simp only [State.own, phase]
      split <;> exact counts.goes phase (Function.update_self ..) ⟨rfl, rfl, rfl⟩ rfl rfl rfl
  | storing now =>
      simp only [State.own, phase]
      exact counts.goes phase (Function.update_self ..) ⟨rfl, rfl, rfl⟩ rfl rfl rfl
  | marking =>
      simp only [State.own, phase]
      exact counts.goes phase (Function.update_self ..) ⟨rfl, rfl, rfl⟩ rfl rfl rfl
  | counting =>
      rw [phase] at counts
      obtain ⟨outside, counts⟩ := counts.plain rfl
      simp only [State.own, phase, State.goto, Function.update_self, outside]
      obtain ⟨-, cur, -, -, maxcur, called, each⟩ := counts
      refine ⟨⟨by simp, by simp⟩, cur, by simp, by simp, by simpa using maxcur, called, ?_⟩
      rw [sum_update_succ, each]
      rfl
  | bumping =>
      rw [phase] at counts
      have inside : s.counters.stage i = .inside := by simpa [permits, phase, Phase.ownNext] using permitted
      rw [inside] at counts
      simp only [State.own, phase, State.goto, Function.update_self, inside]
      split
      · exact counts.go_inside ⟨rfl, rfl, rfl⟩ (.inr (.inl rfl))
      · exact counts.go_inside ⟨rfl, rfl, rfl⟩ (.inr (.inr rfl))
  | viewing =>
      rw [phase] at counts
      have inside := counts.fits.inside (.inl rfl)
      rw [inside] at counts
      simp only [State.own, phase, State.goto, Function.update_self, inside]
      exact counts.go_inside ⟨rfl, rfl, rfl⟩ (.inr (.inr rfl))
  | leaving =>
      rw [phase] at counts
      obtain ⟨outside, counts⟩ := counts.plain rfl
      simp only [State.own, phase, State.goto, Function.update_self, outside]
      obtain ⟨-, cur, -, -, maxcur, called, each⟩ := counts
      exact ⟨⟨by simp, by simp⟩, cur, by simp, by simp, by simpa using maxcur, called, each⟩
  | closing now =>
      simp only [State.own, phase]
      exact counts.goes phase (Function.update_self ..) ⟨rfl, rfl, rfl⟩ rfl rfl rfl
  | _ => simp [permits, phase, Phase.ownNext] at permitted

/-! ## The time stamps and the bits that a callback sees -/

structure Stamps (s : State ι) (begins ends : Set Nat) (phase : Phase) : Prop where
  clock : 0 < s.clock
  begun : ∀ t ∈ begins, 0 < t ∧ t ≤ s.clock
  ended : ∀ t ∈ ends, t ≤ s.clock
  first : First begins s.t_first phase
  last : Last ends s.t_last phase

/-- The word that the callback reads from `t->state`. -/
def word (mode : Mode) (s : State ι) : Nat :=
  match mode with
  | .mode1 => s.state_at_entry
  | .mode2 => s.state_during_run

def Viewed (mode : Mode) (s : State ι) (phase : Phase) : Prop :=
  0 < s.runs ∨ phase.seen mode = true → s.word mode / 2 = 1

omit [Fintype ι] [DecidableEq ι] in
theorem tState_of_called (guards : Tasklet.Guards s.kernel) (called : s.kernel.soft i = .called) : s.tState / 2 = 1 := by
  have run : s.kernel.run = true := guards.lock.flag_eq_true (p := i) (by simp [called, Soft.holds])
  rw [tState, run]
  cases s.kernel.sched <;> rfl

omit [Fintype ι] in
theorem Viewed.own (guards : Tasklet.Guards s.kernel) (inside : Inside s) (viewed : Viewed mode s (s.phase i))
    (permitted : s.permits (.own i)) : Viewed mode (s.own mode i) ((s.own mode i).phase i) := by
  have run (busy : s.phase i ≠ .out) : s.tState / 2 = 1 := by
    rw [ne_eq, inside, not_not] at busy
    exact tState_of_called guards busy
  unfold Viewed at viewed ⊢
  cases phase : s.phase i with
  | seeing now =>
      simp only [State.own, phase, State.goto, Function.update_self] at *
      cases mode <;> simp_all [word, Phase.seen]
  | viewing =>
      simp only [State.own, phase, State.goto, Function.update_self] at *
      cases mode <;> simp_all [word, Phase.seen]
  | checking now =>
      simp only [State.own, phase, State.goto, Function.update_self] at *
      split <;> exact viewed
  | bumping =>
      simp only [State.own, phase, State.goto, Function.update_self] at *
      cases mode <;> simp_all [word, Phase.seen]
  | leaving =>
      simp only [State.own, phase, State.goto, Function.update_self] at *
      exact fun _ => viewed (.inr rfl)
  | storing now | marking | counting | closing now =>
      simp only [State.own, phase, State.goto, Function.update_self] at *
      exact viewed
  | _ => simp [permits, phase, Phase.ownNext] at permitted

omit [Fintype ι] in
theorem Stamps.own {begins ends : Set Nat} (stamps : Stamps s begins ends (s.phase i))
    (permitted : s.permits (.own i)) : Stamps (s.own mode i) begins ends ((s.own mode i).phase i) := by
  obtain ⟨clock, begun, ended, first, last⟩ := stamps
  cases phase : s.phase i with
  | checking now =>
      rw [phase] at first last
      simp only [State.own, phase, State.goto, Function.update_self]
      split
      · rename_i unset
        refine ⟨clock, begun, ended, ?_, last⟩
        rcases first with held | ⟨positive, -⟩
        · exact held
        · exact absurd unset positive.ne'
      · rename_i set
        refine ⟨clock, begun, ended, ?_, last⟩
        rcases first with ⟨zero, -⟩ | held
        · exact absurd zero set
        · exact .inr held
  | storing now =>
      rw [phase] at first last
      simp only [State.own, phase, State.goto, Function.update_self]
      obtain ⟨-, rfl⟩ := first
      exact ⟨clock, begun, ended, .inr ⟨(begun now rfl).1, isLeast_singleton⟩, last⟩
  | closing now =>
      rw [phase] at first last
      simp only [State.own, phase, State.goto, Function.update_self]
      exact ⟨clock, begun, ended, first, fun _ => last⟩
  | bumping =>
      rw [phase] at first last
      simp only [State.own, phase, State.goto, Function.update_self]
      split <;> exact ⟨clock, begun, ended, first, last⟩
  | seeing now | marking | counting | viewing | leaving =>
      rw [phase] at first last
      simp only [State.own, phase, State.goto, Function.update_self]
      exact ⟨clock, begun, ended, first, last⟩
  | _ => simp [permits, phase, Phase.ownNext] at permitted

omit [Fintype ι] [DecidableEq ι] in
theorem Stamps.congr {begins ends : Set Nat} (stamps : Stamps s begins ends phase) {phase' : Phase}
    (same : s'.clock = s.clock ∧ s'.t_first = s.t_first ∧ s'.t_last = s.t_last)
    (first : First begins s.t_first phase → First begins s.t_first phase')
    (last : Last ends s.t_last phase → Last ends s.t_last phase') : Stamps s' begins ends phase' := by
  obtain ⟨clock, begun, ended, first', last'⟩ := stamps
  obtain ⟨clock_eq, t_first, t_last⟩ := same
  exact ⟨clock_eq ▸ clock, clock_eq ▸ begun, clock_eq ▸ ended, t_first ▸ first first', t_last ▸ last last'⟩

omit [Fintype ι] in
theorem Stamps.tick {begins ends : Set Nat} (stamps : Stamps s begins ends phase) (d : Nat) :
    Stamps (s.next mode (.tick d)) begins ends phase := by
  obtain ⟨clock, begun, ended, first, last⟩ := stamps
  refine ⟨Nat.add_pos_left clock d, fun t member => ?_, fun t member => ?_, first, last⟩
  · exact (begun t member).imp_right fun below => below.trans (Nat.le_add_right _ d)
  · exact (ended t member).trans (Nat.le_add_right _ d)

omit [Fintype ι] in
theorem Stamps.begin {begins ends : Set Nat} {now : Nat} (stamps : Stamps s begins ends (s.phase i))
    (permitted : s.permits (.begin i now)) : Stamps (s.goto i (.seeing now)) (insert now begins) ends (.seeing now) := by
  obtain ⟨clock, begun, ended, first, last⟩ := stamps
  obtain ⟨stamping, rfl⟩ := permitted
  rw [stamping] at first last
  refine ⟨clock, ?_, ended, ?_, last⟩
  · rintro t (rfl | earlier)
    · exact ⟨clock, Nat.le_refl _⟩
    · exact begun t earlier
  · rcases first with ⟨unset, rfl⟩ | ⟨set, least⟩
    · exact .inl ⟨unset, by simp⟩
    · refine .inr ⟨set, .inr least.1, ?_⟩
      rintro t (rfl | earlier)
      · exact (begun _ least.1).2
      · exact least.2 earlier

omit [Fintype ι] in
theorem Stamps.finish {begins ends : Set Nat} {now : Nat} (stamps : Stamps s begins ends (s.phase i))
    (permitted : s.permits (.finish i now)) : Stamps (s.goto i (.closing now)) begins (insert now ends) (.closing now) := by
  obtain ⟨clock, begun, ended, first, last⟩ := stamps
  obtain ⟨ending, rfl⟩ := permitted
  rw [ending] at first
  refine ⟨clock, begun, ?_, first, .inl rfl, ?_⟩
  · rintro t (rfl | earlier)
    · exact Nat.le_refl _
    · exact ended t earlier
  · rintro t (rfl | earlier)
    · exact Nat.le_refl _
    · exact ended t earlier

/-! ## Whole runs -/

def calls (acts : List (Act ι)) : Nat := (kernelEvents acts).countP Tasklet.calls

def begins (acts : List (Act ι)) : Set Nat := {t | ∃ i, Act.begin i t ∈ acts}

def ends (acts : List (Act ι)) : Set Nat := {t | ∃ i, Act.finish i t ∈ acts}

/-- A callback that has been called takes its first stamp, and one that has been counted its last. -/
structure Stamped (mode : Mode) (s : State ι) (acts : List (Act ι)) (phase : Phase) : Prop where
  begun : mode = .mode1 → 0 < calls acts → (begins acts).Nonempty ∨ phase = .stamping
  ended : 0 < s.runs → (ends acts).Nonempty ∨ phase = .ending

structure Holds (mode : Mode) (s : State ι) (acts : List (Act ι)) (phase : Phase) (stage : Stage) : Prop where
  counts : Counts s (calls acts) phase stage
  stamps : Stamps s (begins acts) (ends acts) phase
  viewed : Viewed mode s phase
  stamped : Stamped mode s acts phase

omit [DecidableEq ι] in
theorem holds_start : Holds mode (start : State ι) [] .out .outside where
  counts := counts_start
  stamps := ⟨Nat.one_pos, by simp [begins], by simp [ends], .inl ⟨rfl, by simp [begins]⟩, by simp [Last, ends]⟩
  viewed := by simp [Viewed, start, Phase.seen]
  stamped := ⟨fun _ positive => absurd positive (Nat.lt_irrefl 0), fun positive => absurd positive (Nat.lt_irrefl 0)⟩

variable {acts : List (Act ι)}

omit [Fintype ι] [DecidableEq ι] in
theorem calls_append (acts : List (Act ι)) (a : Act ι) :
    calls (acts ++ [a]) = calls acts + match a with
      | .kernel e => (Tasklet.calls e).toNat
      | _ => 0 := by
  rw [calls, kernelEvents, List.filterMap_append, List.countP_append]
  cases a with
  | kernel e => cases called : Tasklet.calls e <;> simp [calls, kernelEvents, called]
  | _ => rfl

omit [Fintype ι] [DecidableEq ι] in
theorem begins_append (acts : List (Act ι)) (a : Act ι) :
    begins (acts ++ [a]) = match a with
      | .begin _ now => insert now (begins acts)
      | _ => begins acts := by
  ext t
  cases a <;> simp [begins, or_comm, exists_or]

omit [Fintype ι] [DecidableEq ι] in
theorem ends_append (acts : List (Act ι)) (a : Act ι) :
    ends (acts ++ [a]) = match a with
      | .finish _ now => insert now (ends acts)
      | _ => ends acts := by
  ext t
  cases a <;> simp [ends, or_comm, exists_or]

/-- The moves of a callback that neither a stamp nor a word depends on. -/
inductive Silent (mode : Mode) : Phase → Phase → Prop
  | stay (phase : Phase) : Silent mode phase phase
  | enter : Silent mode .out mode.entry
  | leave : Silent mode .spinning .leaving
  | ret : Silent mode .returning .out

omit [Fintype ι] in
theorem silent_kernel (mode : Mode) (inside : Inside s) (guards : Tasklet.Guards s.kernel) {e : TaskletEvent ι}
    (permitted : s.permits (.kernel e)) (here : ∀ j, mover (.kernel e) = some j → j = i) :
    Silent mode (s.phase i) ((s.next mode (.kernel e)).phase i) := by
  cases e with
  | clear j =>
      obtain rfl := here j rfl
      have locked : s.kernel.soft j = .locked := permitted.1
      have out : s.phase j = .out := (inside j).mpr (by simp [locked])
      rw [State.next, if_pos (guards.sched_of_locked locked), out]
      simpa [State.goto] using Silent.enter
  | ret j =>
      obtain rfl := here j rfl
      have returning : s.phase j = .returning := permitted.2
      simpa [State.next, State.goto, returning] using Silent.ret
  | _ => exact .stay _

omit [Fintype ι] in
theorem silent_counters (mode : Mode) {e : Event ι} (permitted : s.permits (.counters e))
    (here : ∀ j, mover (.counters e) = some j → j = i) :
    Silent mode (s.phase i) ((s.next mode (.counters e)).phase i) := by
  obtain ⟨-, own⟩ := permitted
  cases e with
  | dec j =>
      obtain rfl := here j rfl
      simp only [counting] at own
      simpa [State.next, State.goto, own] using Silent.leave
  | _ => exact .stay _

omit [Fintype ι] [DecidableEq ι] in
theorem Stamps.silent {begins ends : Set Nat} {phase' : Phase} (stamps : Stamps s begins ends phase)
    (silent : Silent mode phase phase') (same : s'.clock = s.clock ∧ s'.t_first = s.t_first ∧ s'.t_last = s.t_last) :
    Stamps s' begins ends phase' := by
  cases silent with
  | stay => exact stamps.congr same id id
  | enter => cases mode <;> exact stamps.congr same id id
  | leave => exact stamps.congr same id id
  | ret => exact stamps.congr same id id

omit [Fintype ι] [DecidableEq ι] in
theorem Viewed.silent {phase' : Phase} (viewed : Viewed mode s phase) (silent : Silent mode phase phase')
    (same : s'.runs = s.runs ∧ s'.word mode = s.word mode) : Viewed mode s' phase' := by
  rw [Viewed, same.1, same.2]
  cases silent with
  | stay => exact viewed
  | enter => cases mode <;> exact viewed
  | leave => exact viewed
  | ret => exact viewed

omit [Fintype ι] in
theorem next_kernel_same (e : TaskletEvent ι) :
    ((s.next mode (.kernel e)).clock = s.clock ∧ (s.next mode (.kernel e)).t_first = s.t_first ∧
      (s.next mode (.kernel e)).t_last = s.t_last) ∧
    (s.next mode (.kernel e)).runs = s.runs ∧ (s.next mode (.kernel e)).word mode = s.word mode := by
  cases e with
  | clear j =>
      rw [State.next]
      split <;> cases mode <;> exact ⟨⟨rfl, rfl, rfl⟩, rfl, rfl⟩
  | _ => cases mode <;> exact ⟨⟨rfl, rfl, rfl⟩, rfl, rfl⟩

omit [Fintype ι] in
theorem next_counters_same (e : Event ι) :
    ((s.next mode (.counters e)).clock = s.clock ∧ (s.next mode (.counters e)).t_first = s.t_first ∧
      (s.next mode (.counters e)).t_last = s.t_last) ∧
    (s.next mode (.counters e)).runs = s.runs ∧ (s.next mode (.counters e)).word mode = s.word mode := by
  cases e <;> cases mode <;> exact ⟨⟨rfl, rfl, rfl⟩, rfl, rfl⟩

theorem Silent.waits {phase' : Phase} (silent : Silent mode phase phase')
    (waits : phase = .stamping ∨ phase = .ending) : phase' = phase := by
  rcases waits with rfl | rfl <;> cases silent <;> rfl

omit [Fintype ι] [DecidableEq ι] in
theorem own_goes (permitted : s.permits (.own i)) : s.phase i ≠ .stamping ∧ s.phase i ≠ .ending := by
  constructor <;> intro phase <;> simp [permits, phase, Phase.ownNext] at permitted

omit [Fintype ι] in
theorem Stamped.begun_next (inside : Inside s) (guards : Tasklet.Guards s.kernel) {a : Act ι}
    (permitted : s.permits a) (here : ∀ j, mover a = some j → j = i) (stamped : Stamped .mode1 s acts (s.phase i))
    (called : 0 < calls (acts ++ [a])) :
    (begins (acts ++ [a])).Nonempty ∨ (s.next .mode1 a).phase i = .stamping := by
  have begun := stamped.begun rfl
  rw [calls_append] at called
  rw [begins_append]
  cases a with
  | tick d => exact begun called
  | count j => exact begun called
  | kernel e =>
      have silent := silent_kernel .mode1 inside guards permitted here
      by_cases enters : ∃ j, e = .clear j
      · obtain ⟨j, rfl⟩ := enters
        obtain rfl := here j rfl
        rw [State.next, if_pos (guards.sched_of_locked permitted.1)]
        exact .inr (Function.update_self ..)
      · have none : Tasklet.calls e = false := by
          cases e with
          | clear j => exact absurd ⟨j, rfl⟩ enters
          | _ => rfl
        simp only [none] at called
        exact (begun called).imp_right fun phase => (silent.waits (.inl phase)).trans phase
  | counters e =>
      exact (begun called).imp_right fun phase =>
        ((silent_counters .mode1 permitted here).waits (.inl phase)).trans phase
  | begin j now => exact .inl (Set.insert_nonempty _ _)
  | finish j now =>
      obtain rfl := here j rfl
      exact (begun called).imp_right fun phase => absurd (phase.symm.trans permitted.1) (by simp)
  | own j =>
      obtain rfl := here j rfl
      exact (begun called).imp_right fun phase => absurd phase (own_goes permitted).1

omit [Fintype ι] in
theorem Stamped.ended_next (inside : Inside s) (guards : Tasklet.Guards s.kernel) {a : Act ι}
    (permitted : s.permits a) (here : ∀ j, mover a = some j → j = i) (stamped : Stamped mode s acts (s.phase i))
    (counted : 0 < (s.next mode a).runs) :
    (ends (acts ++ [a])).Nonempty ∨ (s.next mode a).phase i = .ending := by
  have ended := stamped.ended
  rw [ends_append]
  cases a with
  | tick d => exact ended counted
  | count j => exact ended counted
  | kernel e =>
      rw [(next_kernel_same e).2.1] at counted
      exact (ended counted).imp_right fun phase =>
        ((silent_kernel mode inside guards permitted here).waits (.inr phase)).trans phase
  | counters e =>
      rw [(next_counters_same e).2.1] at counted
      exact (ended counted).imp_right fun phase =>
        ((silent_counters mode permitted here).waits (.inr phase)).trans phase
  | begin j now =>
      obtain rfl := here j rfl
      exact (ended counted).imp_right fun phase => absurd (phase.symm.trans permitted.1) (by simp)
  | finish j now => exact .inl (Set.insert_nonempty _ _)
  | own j =>
      obtain rfl := here j rfl
      by_cases leaving : s.phase j = .leaving
      · right
        simp [State.next, State.own, leaving, State.goto]
      · have same : (s.next mode (.own j)).runs = s.runs := by
          simp only [State.next, State.own]
          split <;> first | rfl | contradiction
        rw [same] at counted
        exact (ended counted).imp_right fun phase => absurd phase (own_goes permitted).2

theorem Holds.next (inside : Inside s) (guards : Tasklet.Guards s.kernel) {a : Act ι} (permitted : s.permits a)
    (here : ∀ j, mover a = some j → j = i) (holds : Holds mode s acts (s.phase i) (s.counters.stage i)) :
    Holds mode (s.next mode a) (acts ++ [a]) ((s.next mode a).phase i) ((s.next mode a).counters.stage i) := by
  obtain ⟨counts, stamps, viewed, stamped⟩ := holds
  have stamped' : Stamped mode (s.next mode a) (acts ++ [a]) ((s.next mode a).phase i) := by
    refine ⟨fun mode1 => ?_, stamped.ended_next inside guards permitted here⟩
    subst mode1
    exact stamped.begun_next inside guards permitted here
  cases a with
  | tick d =>
      refine ⟨?_, ?_, viewed, stamped'⟩
      · rw [calls_append]
        exact counts.congr rfl rfl rfl
      · rw [begins_append, ends_append]
        exact stamps.tick d
  | count j =>
      refine ⟨?_, ?_, viewed, stamped'⟩
      · rw [calls_append]
        exact counts.congr rfl rfl rfl
      · rw [begins_append, ends_append]
        exact stamps.congr ⟨rfl, rfl, rfl⟩ id id
  | kernel e =>
      have silent := silent_kernel mode inside guards permitted here
      refine ⟨?_, ?_, viewed.silent silent (next_kernel_same e).2, stamped'⟩
      · rw [calls_append]
        exact counts.kernel inside guards permitted here
      · rw [begins_append, ends_append]
        exact stamps.silent silent (next_kernel_same e).1
  | counters e =>
      have silent := silent_counters mode permitted here
      refine ⟨?_, ?_, viewed.silent silent (next_counters_same e).2, stamped'⟩
      · rw [calls_append]
        exact counts.bump permitted here
      · rw [begins_append, ends_append]
        exact stamps.silent silent (next_counters_same e).1
  | begin j now =>
      obtain rfl := here j rfl
      have phase : s.phase j = .stamping := permitted.1
      refine ⟨?_, ?_, ?_, stamped'⟩
      · rw [calls_append]
        exact counts.goes phase (Function.update_self ..) ⟨rfl, rfl, rfl⟩ rfl rfl rfl
      · rw [begins_append, ends_append]
        simpa [State.next, State.goto] using stamps.begin permitted
      · rw [phase] at viewed
        simp only [State.next, State.goto, Function.update_self]
        cases mode <;> exact viewed
  | finish j now =>
      obtain rfl := here j rfl
      have phase : s.phase j = .ending := permitted.1
      refine ⟨?_, ?_, ?_, stamped'⟩
      · rw [calls_append]
        exact counts.goes phase (Function.update_self ..) ⟨rfl, rfl, rfl⟩ rfl rfl rfl
      · rw [begins_append, ends_append]
        simpa [State.next, State.goto] using stamps.finish permitted
      · rw [phase] at viewed
        simp only [State.next, State.goto, Function.update_self]
        cases mode <;> exact viewed
  | own j =>
      obtain rfl := here j rfl
      refine ⟨?_, ?_, viewed.own guards inside permitted, stamped'⟩
      · rw [calls_append]
        exact counts.own permitted
      · rw [begins_append, ends_append]
        exact stamps.own permitted

theorem solo_of_run [Nonempty ι] (run : Run (step mode) start acts s) : Solo (Holds mode s acts) s := by
  induction run with
  | nil =>
      obtain ⟨i⟩ := ‹Nonempty ι›
      exact ⟨i, fun _ _ => ⟨rfl, rfl⟩, holds_start⟩
  | snoc run action ih =>
      obtain ⟨permitted, rfl⟩ := action
      have guards := Tasklet.guards_of_run (kernel_run run)
      have inside := inside_of_run run
      exact ih.next guards inside (fun g holds => holds.counts.fits.outside rfl) permitted
        fun i here holds => holds.next inside guards permitted here

/-! ## The calls -/

def accepted (acts : List (Act ι)) : Nat := (kernelEvents acts).countP Tasklet.accepts

def tries (acts : List (Act ι)) : Nat :=
  acts.countP fun
    | .kernel (.schedule _ _) => true
    | _ => false

theorem sum_update_toNat (f : ι → Bool) (i : ι) (b : Bool) :
    ∑ j, (Function.update f i b j).toNat + (f i).toNat = ∑ j, (f j).toNat + b.toNat := by
  have moved : (fun j => (Function.update f i b j).toNat) = Function.update (fun j => (f j).toNat) i b.toNat :=
    Function.comp_update Bool.toNat f i b
  rw [moved, Finset.sum_update_of_mem (Finset.mem_univ i), Finset.sdiff_singleton_eq_erase,
    ← Finset.add_sum_erase Finset.univ (fun j => (f j).toNat) (Finset.mem_univ i)]
  omega

theorem sched_calls_of_run (run : Run (step mode) start acts s) :
    s.sched_calls = tries acts + ∑ i, (s.handler i).toNat := by
  induction run with
  | nil => simp [start, tries]
  | @snoc acts s _ a run action ih =>
      obtain ⟨permitted, rfl⟩ := action
      rw [tries, List.countP_append, ← tries, List.countP_singleton]
      cases a with
      | count i =>
          have moved := sum_update_toNat s.handler i true
          rw [show s.handler i = false from permitted] at moved
          simp only [State.next, Bool.toNat_false, Bool.toNat_true] at moved ⊢
          simp
          omega
      | kernel e =>
          cases e with
          | schedule i old =>
              have moved := sum_update_toNat s.handler i false
              rw [show s.handler i = true from permitted.2] at moved
              simp only [State.next, Bool.toNat_false, Bool.toNat_true] at moved ⊢
              simp
              omega
          | clear i =>
              rw [State.next]
              split <;> simpa [State.goto] using ih
          | _ => simpa [State.next, State.goto] using ih
      | own i =>
          simp only [State.next, State.own]
          split <;> simpa [State.goto] using ih
      | counters e => cases e <;> simpa [State.next, State.goto] using ih
      | _ => simpa [State.next, State.goto] using ih

omit [Fintype ι] in
theorem accepted_of_run (run : Run (step mode) start acts s) : accepted acts = calls acts + s.kernel.sched.toNat :=
  Tasklet.accepted_of_run (kernel_run run)

omit [Fintype ι] in
/-- The first call finds `SCHED` clear. -/
theorem accepted_pos (run : Run (step mode) start acts s) (tried : 0 < tries acts) : 0 < accepted acts := by
  induction run with
  | nil => cases tried
  | @snoc acts s _ a run action ih =>
      obtain ⟨permitted, rfl⟩ := action
      have one := accepted_of_run (Run.snoc run ⟨permitted, rfl⟩)
      rw [tries, List.countP_append, ← tries, List.countP_singleton] at tried
      by_cases earlier : 0 < tries acts
      · rw [accepted, kernelEvents, List.filterMap_append, List.countP_append]
        exact Nat.add_pos_left (ih earlier) _
      · cases a with
        | kernel e =>
            cases e with
            | schedule i old =>
                rw [one]
                cases set : s.kernel.sched <;> simp_all [State.next, Tasklet.next, permits, Tasklet.permits]
            | _ => exact absurd tried (by simpa using earlier)
        | _ => exact absurd tried (by simpa using earlier)

/-- The bit of a processor is set between `marking` and `counting`. -/
def Marked (s : State ι) (i : ι) : Prop := s.cpu_seen i = true ↔ 0 < s.per_cpu_runs i ∨ s.phase i = .counting

omit [Fintype ι] in
theorem Marked.moves (marked : Marked s i) {j : ι} (before : s.phase j ≠ .counting) (after : phase ≠ .counting)
    (moved : s'.phase = Function.update s.phase j phase)
    (same : s'.cpu_seen = s.cpu_seen ∧ s'.per_cpu_runs = s.per_cpu_runs) : Marked s' i := by
  unfold Marked at *
  rw [same.1, same.2, moved, marked]
  rcases eq_or_ne i j with rfl | other
  · simp [before, after]
  · rw [Function.update_of_ne other]

omit [Fintype ι] in
theorem Marked.own {j : ι} (marked : Marked s i) (permitted : s.permits (.own j)) : Marked (s.own mode j) i := by
  cases phase : s.phase j with
  | marking =>
      unfold Marked at *
      rcases eq_or_ne i j with rfl | other
      · simp [State.own, phase, State.goto]
      · simp [State.own, phase, State.goto, other, marked]
  | counting =>
      unfold Marked at *
      rcases eq_or_ne i j with rfl | other
      · simp [State.own, phase, State.goto, marked]
      · simp [State.own, phase, State.goto, other, marked]
  | checking now | bumping =>
      simp only [State.own, phase]
      split <;> exact marked.moves (by simp [phase]) (by simp) rfl ⟨rfl, rfl⟩
  | seeing now | storing now | viewing | leaving | closing now =>
      simp only [State.own, phase]
      exact marked.moves (by simp [phase]) (by simp) rfl ⟨rfl, rfl⟩
  | _ => simp [permits, phase, Phase.ownNext] at permitted

omit [Fintype ι] in
theorem Marked.kernel (marked : Marked s i) (inside : Inside s) {e : TaskletEvent ι}
    (permitted : s.permits (.kernel e)) : Marked (s.next mode (.kernel e)) i := by
  cases e with
  | clear j =>
      have locked : s.kernel.soft j = .locked := permitted.1
      have out : s.phase j = .out := (inside j).mpr (by simp [locked])
      rw [State.next]
      split
      · exact marked.moves (by simp [out]) (by cases mode <;> simp [Mode.entry]) rfl ⟨rfl, rfl⟩
      · exact marked
  | ret j =>
      have returning : s.phase j = .returning := permitted.2
      exact marked.moves (by simp [returning]) (by simp) rfl ⟨rfl, rfl⟩
  | _ => exact marked

omit [Fintype ι] in
theorem cpu_seen_of_run (run : Run (step mode) start acts s) (i : ι) : Marked s i := by
  induction run with
  | nil => simp [Marked, start]
  | @snoc acts s _ a run action ih =>
      obtain ⟨permitted, rfl⟩ := action
      cases a with
      | tick d => exact ih
      | count j => exact ih
      | kernel e => exact ih.kernel (inside_of_run run) permitted
      | counters e =>
          cases e with
          | dec j =>
              have spinning : s.phase j = .spinning := permitted.2
              exact ih.moves (by simp [spinning]) (by simp) rfl ⟨rfl, rfl⟩
          | _ => exact ih
      | begin j now => exact ih.moves (by simp [permitted.1]) (by simp) rfl ⟨rfl, rfl⟩
      | finish j now => exact ih.moves (by simp [permitted.1]) (by simp) rfl ⟨rfl, rfl⟩
      | own j => exact ih.own permitted

omit [Fintype ι] [DecidableEq ι] in
theorem accepted_le_tries (acts : List (Act ι)) : accepted acts ≤ tries acts := by
  rw [accepted, kernelEvents, tries, List.countP_filterMap]
  apply List.countP_mono_left
  intro a _ counted
  cases a with
  | kernel e => cases e <;> first | rfl | simp [Tasklet.accepts] at counted
  | _ => simp at counted

omit [Fintype ι] [DecidableEq ι] in
theorem Settled.sched (settled : s.Settled) (guards : Tasklet.Guards s.kernel) : s.kernel.sched = false := by
  apply Tasklet.sched_eq_false guards
  rintro (i | i | i) <;> obtain ⟨-, adding, listed, away⟩ := settled i
  · simp [Tasklet.token, adding]
  · simp [Tasklet.token, listed]
  · simp [Tasklet.token, away, Soft.pending]

/-- One tasklet is run by one processor at a time, and once for each call that finds it unscheduled. -/
theorem serial_of_run [Nonempty ι] (run : Run (step mode) start acts s) :
    (∀ i j, s.phase i ≠ .out → s.phase j ≠ .out → i = j) ∧ s.counters.maxcur ≤ 1 ∧
      (s.Settled →
        s.runs = accepted acts ∧ s.runs ≤ s.sched_calls ∧ s.counters.cur = 0 ∧
        ∑ i, s.per_cpu_runs i = s.runs ∧ (∀ i, s.cpu_seen i = true ↔ 0 < s.per_cpu_runs i) ∧
        (0 < s.sched_calls → 0 < s.runs ∧ s.counters.maxcur = 1 ∧ s.word mode / 2 = 1 ∧
          (mode = .mode1 → IsLeast (begins acts) s.t_first) ∧ IsGreatest (ends acts) s.t_last)) := by
  obtain ⟨i, others, ⟨counts, stamps, viewed, stamped⟩⟩ := solo_of_run run
  refine ⟨fun i j => phase_unique run, ?_, fun settled => ?_⟩
  · rw [counts.maxcur]
    split <;> simp
  · have out (j : ι) : s.phase j = .out := (inside_of_run run j).mpr (by simp [(settled j).2.2.2])
    rw [out] at counts stamps viewed stamped
    obtain ⟨-, counts⟩ := counts.plain rfl
    have called : calls acts = s.runs := counts.called
    have runs : s.runs = accepted acts := by
      rw [accepted_of_run run, settled.sched (Tasklet.guards_of_run (kernel_run run)), called]
      rfl
    have sched_calls : s.sched_calls = tries acts := by
      rw [sched_calls_of_run run, Finset.sum_eq_zero fun j _ => by rw [(settled j).1]; rfl]
      rfl
    refine ⟨runs, ?_, counts.cur, counts.each, ?_, fun some => ?_⟩
    · rw [runs, sched_calls]
      exact accepted_le_tries acts
    · intro j
      have marked := cpu_seen_of_run run j
      rw [Marked, out] at marked
      simpa using marked
    · have positive : 0 < s.runs := by
        rw [runs]
        rw [sched_calls] at some
        exact accepted_pos run some
      refine ⟨positive, by simp [counts.maxcur, positive], viewed (.inl positive), fun mode1 => ?_, ?_⟩
      · have begun := (stamped.begun mode1 (called ▸ positive)).resolve_right (by simp)
        rcases stamps.first with ⟨-, none⟩ | ⟨-, least⟩
        · exact absurd none begun.ne_empty
        · exact least
      · exact stamps.last ((stamped.ended positive).resolve_right (by simp))

/-- A second processor schedules the tasklet while the first runs it, and has to wait. -/
def whileRunning : List (Act Bool) :=
  [.count false, .kernel (.schedule false false), .kernel (.add false), .kernel (.take false), .kernel (.tryLock false),
    .kernel (.clear false), .own false, .own false, .counters (.incReturn false), .counters (.readMax false),
    .counters (.cmpxchg false), .own false, .own false,
    .count true, .kernel (.schedule true false), .kernel (.add true), .kernel (.take true), .kernel (.tryLock true),
    .kernel (.putBack true),
    .tick 30, .counters (.dec false), .own false, .finish false 31, .own false, .kernel (.ret false),
    .kernel (.unlock false),
    .kernel (.take true), .kernel (.tryLock true), .kernel (.clear true), .own true, .own true,
    .counters (.incReturn true), .counters (.readMax true), .own true, .own true, .tick 30, .counters (.dec true),
    .own true, .finish true 61, .own true, .kernel (.ret true), .kernel (.unlock true)]

theorem serial_of_run_whileRunning :
    (whileRunning.foldl (next .mode2) start).counters.maxcur ≤ 1 ∧
      (whileRunning.foldl (next .mode2) start).runs = accepted whileRunning :=
  have permitted : Permitted permits (next .mode2) start whileRunning := by decide
  have serial := serial_of_run (run_of_permitted permitted)
  ⟨serial.2.1, (serial.2.2 (by unfold Settled; decide)).1⟩

example : accepted whileRunning = 2 := by decide

end State

end LinuxInterview.SoftirqPar.OneTasklet
