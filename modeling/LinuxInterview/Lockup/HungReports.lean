import LinuxInterview.Lockup.HungTask

/-!
# Which tasks the small `khungtaskd` reports
-/

namespace LinuxInterview.Lockup
open Library

/-- The count that the pid's slot holds was recorded for the task itself; a pid without one holds the
sentinel. -/
def OwnRecord (before : List Sighting) (g : Sighting) : Prop :=
  g.pid ∈ tracked (before ++ [g]) →
    match lastUnder g.pid before with
    | some last => last.count = g.count → last.task = g.task
    | none => g.count ≠ ulongMax

def SeenBefore (before : List Sighting) (g : Sighting) : Prop :=
  ∃ e ∈ before, e.task = g.task ∧ e.count = g.count ∧ e.scan < g.scan

theorem seenBefore_iff {before : List Sighting} {g : Sighting} (genuine : Genuine before g) :
    (Recalled before g → SeenBefore before g) ↔ OwnRecord before g := by
  unfold Recalled OwnRecord lastCount
  cases last : lastUnder g.pid before with
  | none =>
      have strange : ¬ SeenBefore before g := by
        intro ⟨e, member, same, _⟩
        obtain ⟨_, _, own, found, _⟩ := genuine e member same
        cases last.symm.trans found
      simp only [Option.elim_none, strange, imp_false, not_and]
      exact forall_congr' fun _ => not_congr eq_comm
  | some l =>
      simp only [Option.elim_some, and_imp]
      constructor
      · intro sound listed same
        obtain ⟨e, member, task, _⟩ := sound listed same
        obtain ⟨_, _, own, found, owner⟩ := genuine e member task
        cases last.symm.trans found
        exact owner
      · intro own listed same
        have task := own listed same
        have member := (latest_spec last).1
        exact ⟨l, member, task, same, (genuine l member task).2.1⟩

/-- A run reports only tasks that an earlier scan saw blocked with the same count, exactly if no
report goes by the record of another task. -/
theorem reports_sound_iff {events : List Event} {w : World} (run : Scans events w) :
    (∀ before g after, w.log = before ++ ⟨g, true⟩ :: after → SeenBefore (history before) g) ↔
      ∀ before x after, w.log = before ++ x :: after → OwnRecord (history before) x.sighting := by
  have chronicle := (consistent_of_run run).1.chronicle
  constructor
  · intro sound before x after split
    obtain ⟨genuine, reported⟩ := chronicle.entry split
    apply (seenBefore_iff genuine).mp
    intro recalled
    apply sound before x.sighting after
    rw [split, ← reported.mpr recalled]
  · intro own before g after split
    obtain ⟨genuine, reported⟩ := chronicle.entry split
    exact (seenBefore_iff genuine).mpr (own before _ after split) (reported.mp rfl)

/-! A pid that is used again by a task that blocks after as many switches. -/

def reusedPid : List Event :=
  [.create 100, .advance 0 0x2#32 1 0, .scan, .exit 0, .create 100, .advance 1 0x2#32 1 0, .scan]

theorem reusedPid_scans : Scans reusedPid (reusedPid.foldl World.next World.init) :=
  run_of_permitted (by decide +kernel)

theorem reusedPid_log : (reusedPid.foldl World.next World.init).log =
    [⟨⟨0, 0, 100, 1⟩, false⟩, ⟨⟨1, 1, 100, 1⟩, true⟩] := by
  decide +kernel

theorem new_task_reported_at_first_sighting :
    ∃ events w, Scans events w ∧ ∃ before g after, w.log = before ++ ⟨g, true⟩ :: after ∧
      ¬ SeenBefore (history before) g ∧ ∀ e ∈ history before, e.task ≠ g.task := by
  refine ⟨reusedPid, _, reusedPid_scans, [⟨⟨0, 0, 100, 1⟩, false⟩], ⟨1, 1, 100, 1⟩, [], reusedPid_log, ?_⟩
  constructor
  · unfold SeenBefore
    decide
  · decide

theorem reports_sound_iff_reused :
    (∀ before g after, (reusedPid.foldl World.next World.init).log = before ++ ⟨g, true⟩ :: after →
        SeenBefore (history before) g) ↔
      ∀ before x after, (reusedPid.foldl World.next World.init).log = before ++ x :: after →
        OwnRecord (history before) x.sighting :=
  reports_sound_iff reusedPid_scans

/-! ## Two scans in a row -/

theorem Chronicle.scan_lt {log before after : List Entry} (chronicle : Chronicle log) {x y : Entry}
    (split : log = before ++ x :: after) (later : y ∈ after)
    (same : x.sighting.task = y.sighting.task) : x.sighting.scan < y.sighting.scan := by
  obtain ⟨between, rest, afterSplit⟩ := List.append_of_mem later
  have position : log = (before ++ x :: between) ++ y :: rest := by
    rw [split, afterSplit, List.append_assoc]
    rfl
  have earlier : x.sighting ∈ history (before ++ x :: between) :=
    List.mem_map_of_mem (List.mem_append_right _ List.mem_cons_self)
  exact ((chronicle.entry position).1 x.sighting earlier same).2.1

/-- With no scan between, the task's previous sighting is still the latest under its pid. -/
theorem Chronicle.lastUnder_eq {log : List Entry} (chronicle : Chronicle log) {g e : Sighting}
    (genuine : Genuine (history log) g) (seen : e ∈ history log) (task : e.task = g.task)
    (previous : e.scan + 1 = g.scan) : lastUnder g.pid (history log) = some e := by
  obtain ⟨pid, _, last, found, owner⟩ := genuine e seen task
  obtain ⟨x, inside, rfl⟩ := List.mem_map.mp seen
  obtain ⟨before, after, split⟩ := List.append_of_mem inside
  have shape : history log = history before ++ x.sighting :: history after := by
    rw [split, history, List.map_append]
    rfl
  have order : last = x.sighting ∨ last ∈ history after := by
    rw [shape] at found
    exact latest_append_cons (by simpa using pid) found
  rcases order with same | later
  · rw [found, same]
  · obtain ⟨y, listed, rfl⟩ := List.mem_map.mp later
    have after := chronicle.scan_lt split listed (task.trans owner.symm)
    have now := (genuine y.sighting (latest_spec found).1 owner).2.1
    omega

theorem mem_tracked_append {before : List Sighting} {pid : Nat} (seen : pid ∈ before.map Sighting.pid)
    (more : List Sighting) : pid ∈ tracked (before ++ more) ↔ pid ∈ tracked before := by
  induction more using List.reverseRecOn with
  | nil => rw [List.append_nil]
  | append_singleton more g ih =>
      rw [← List.append_assoc, tracked_append_singleton]
      split
      · exact ih
      · rename_i new
        have room : (tracked (before ++ more)).length < htMax := by
          by_contra full
          exact new (Or.inr (Nat.le_of_not_lt full))
        have known : pid ∈ (before ++ more).map Sighting.pid := by
          rw [List.map_append]
          exact List.mem_append_left _ seen
        have listed : pid ∈ tracked (before ++ more) := by
          by_contra untracked
          exact unseen_of_room room untracked known
        exact iff_of_true (List.mem_append_left _ listed) (ih.mp listed)

theorem foldl_visit_log (ts : List Task) (w : World) : w.log <+: (ts.foldl World.visit w).log := by
  induction ts generalizing w with
  | nil => exact List.prefix_rfl
  | cons t ts ih =>
      apply List.IsPrefix.trans _ (ih (w.visit t))
      unfold World.visit
      split
      · exact List.prefix_append _ _
      · exact List.prefix_rfl

theorem exists_visit {w : World} {t : Task} (inv : Consistent w)
    (recent : ∀ e ∈ history w.log, e.scan < w.scans) (alive : t ∈ w.live) (blocked : t.Blocked) :
    ∃ log after, w.khungScan.log = log ++ ⟨t.sighting w.scans,
      decide (Recalled (history log) (t.sighting w.scans))⟩ :: after ∧ w.log <+: log := by
  obtain ⟨earlier, later, split⟩ := List.append_of_mem alive
  have among : ∀ other ∈ earlier, other ∈ w.live := by
    intro other member
    rw [split]
    exact List.mem_append_left _ member
  have ids : (earlier.map Task.id).Nodup := by
    apply List.Nodup.sublist _ inv.population.ids
    rw [split]
    exact (List.sublist_append_left _ _).map _
  obtain ⟨visited, live, scans⟩ := inv.foldl_visit among ids (fun _ _ e member _ => recent e member)
  have visit := visit_blocked visited (live ▸ alive) blocked
  obtain ⟨after, appended⟩ := foldl_visit_log later ((earlier.foldl World.visit w).visit t)
  rw [visit, scans] at appended
  refine ⟨(earlier.foldl World.visit w).log, after, ?_, foldl_visit_log earlier w⟩
  rw [World.khungScan, split, List.foldl_append, List.foldl_cons, visit, scans, ← appended,
    List.append_assoc]
  rfl

theorem khungScan_scans {w : World} (inv : Consistent w) (recent : ∀ e ∈ history w.log, e.scan < w.scans) :
    w.khungScan.scans = w.scans + 1 := by
  have visited := inv.foldl_visit (fun _ member => member) inv.population.ids
    (fun _ _ e member _ => recent e member)
  exact congrArg (· + 1) visited.2.2

theorem Chronicle.unique {log before after : List Entry} (chronicle : Chronicle log) {x y : Entry}
    (split : log = before ++ y :: after) (member : x ∈ log) (same : x.sighting = y.sighting) : x = y := by
  have genuine := (chronicle.entry split).1
  rw [split] at member
  rcases List.mem_append.mp member with earlier | rest
  · have order := (genuine x.sighting (List.mem_map_of_mem earlier) (by rw [same])).2.1
    rw [same] at order
    exact absurd order (Nat.lt_irrefl _)
  rcases List.mem_cons.mp rest with rfl | later
  · rfl
  · have order := chronicle.scan_lt split later (by rw [same])
    rw [same] at order
    exact absurd order (Nat.lt_irrefl _)

def ReportedAt (w : World) (t : Task) : Prop :=
  ∃ x ∈ w.khungScan.log, x.sighting = t.sighting w.scans ∧ x.reported = true

theorem scans_scan {events : List Event} {w : World} (run : Scans events w) :
    Scans (events ++ [.scan]) w.khungScan :=
  have permitted : w.Permits .scan := trivial
  run.snoc ⟨permitted, rfl⟩

theorem reportedAt_iff {events : List Event} {w : World} (run : Scans events w) {t : Task}
    (alive : t ∈ w.live) (blocked : t.Blocked) {e : Sighting} (seen : e ∈ history w.log)
    (task : e.task = t.id) (count : e.count = t.switchCount) (previous : e.scan + 1 = w.scans) :
    ReportedAt w t ↔ t.pid ∈ tracked (history w.log) := by
  obtain ⟨inv, recent⟩ := consistent_of_run run
  obtain ⟨log, after, split, older⟩ := exists_visit inv recent alive blocked
  have chronicle : Chronicle w.khungScan.log := (consistent_of_run (scans_scan run)).1.chronicle
  obtain ⟨more, rfl⟩ := older
  have longer : history (w.log ++ more) = history w.log ++ history more := List.map_append
  have known : e ∈ history (w.log ++ more) := by
    rw [longer]
    exact List.mem_append_left _ seen
  have genuine := (chronicle.entry split).1
  have pid : e.pid = t.pid := (genuine e known task).1
  have last : lastUnder t.pid (history (w.log ++ more)) = some e :=
    (chronicle.of_append split).lastUnder_eq genuine known task previous
  have recalled : Recalled (history (w.log ++ more)) (t.sighting w.scans) ↔
      t.pid ∈ tracked (history w.log) := by
    have stored : lastCount (history (w.log ++ more)) t.pid = t.switchCount := by
      rw [lastCount, last]
      exact count
    have seenPid : t.pid ∈ (history w.log).map Sighting.pid := pid ▸ List.mem_map_of_mem seen
    have listed := mem_tracked_append seenPid (history more ++ [t.sighting w.scans])
    rw [← List.append_assoc, ← longer] at listed
    exact (and_iff_left stored).trans listed
  constructor
  · rintro ⟨x, member, same, reported⟩
    have entry := chronicle.unique split member same
    rw [entry] at reported
    exact recalled.mp (of_decide_eq_true reported)
  · intro listed
    refine ⟨⟨t.sighting w.scans, decide (Recalled (history (w.log ++ more)) (t.sighting w.scans))⟩, ?_,
      rfl, decide_eq_true (recalled.mpr listed)⟩
    rw [split]
    exact List.mem_append_right _ List.mem_cons_self

/-! ## What happens between two scans -/

theorem run_without_scan {first second : World} {events : List Event}
    (run : Run (Guarded World.Permits World.next) first events second) (quiet : .scan ∉ events) :
    second.log = first.log ∧ second.scans = first.scans := by
  induction run with
  | nil => exact ⟨rfl, rfl⟩
  | @snoc events before after event _ action ih =>
      have same : after.log = before.log ∧ after.scans = before.scans := by
        rw [action.2]
        cases event with
        | scan => exact absurd (List.mem_append_right _ List.mem_cons_self) quiet
        | create pid => exact ⟨rfl, rfl⟩
        | exit id => exact ⟨rfl, rfl⟩
        | advance id state nvcsw nivcsw => exact ⟨rfl, rfl⟩
      obtain ⟨log, scans⟩ := ih fun member => quiet (List.mem_append_left _ member)
      exact ⟨same.1.trans log, same.2.trans scans⟩

/-- A task that two scans in a row find blocked with the same count is reported by the second one
exactly if its pid is among the first ones ever seen blocked, as many as the table has slots. -/
theorem hung_task_reported_iff {before between : List Event} {first second : World}
    (started : Scans before first)
    (run : Run (Guarded World.Permits World.next) first.khungScan between second)
    (quiet : .scan ∉ between) {t t' : Task} (alive : t ∈ first.live) (blocked : t.Blocked)
    (alive' : t' ∈ second.live) (blocked' : t'.Blocked) (same : t'.id = t.id)
    (unchanged : t'.switchCount = t.switchCount) :
    ReportedAt second t' ↔ t'.pid ∈ tracked (history second.log) := by
  obtain ⟨inv, recent⟩ := consistent_of_run started
  have whole : Scans (before ++ [.scan] ++ between) second := (scans_scan started).append run
  obtain ⟨log, scans⟩ := run_without_scan run quiet
  obtain ⟨earlier, later, split, _⟩ := exists_visit inv recent alive blocked
  have seen : t.sighting first.scans ∈ history second.log := by
    rw [log, split]
    exact List.mem_map_of_mem (List.mem_append_right _ List.mem_cons_self)
  exact reportedAt_iff whole alive' blocked' seen same.symm unchanged.symm (scans.trans (khungScan_scans inv recent)).symm

def sleeper (id pid : Nat) : Task := ⟨id, pid, taskUninterruptible, 1, 0⟩

theorem sleeper_blocked (id pid : Nat) : (sleeper id pid).Blocked := by
  have bits : taskUninterruptible &&& taskUninterruptible ≠ 0#32 ∧
      taskUninterruptible &&& taskWakekill = 0#32 ∧ taskUninterruptible &&& taskNoload = 0#32 := by
    decide
  exact bits

theorem oneSleeper_scans : Scans [.create 100, .advance 0 taskUninterruptible 1 0]
    ⟨1, [sleeper 0 100], List.replicate htMax ⟨0, 0⟩, 0, []⟩ :=
  run_of_permitted (by decide)

theorem hung_task_reported_iff_sleeper :
    ReportedAt (World.khungScan ⟨1, [sleeper 0 100], List.replicate htMax ⟨0, 0⟩, 0, []⟩)
        (sleeper 0 100) ↔
      (sleeper 0 100).pid ∈ tracked (history
        (World.khungScan ⟨1, [sleeper 0 100], List.replicate htMax ⟨0, 0⟩, 0, []⟩).log) :=
  have alive : ∀ {w : World}, w.live = [sleeper 0 100] → sleeper 0 100 ∈ w.live :=
    fun alone => alone ▸ List.mem_cons_self
  hung_task_reported_iff oneSleeper_scans .nil List.not_mem_nil (alive rfl) (sleeper_blocked 0 100)
    (alive (by simp [World.khungScan, World.visit, sleeper_blocked])) (sleeper_blocked 0 100) rfl rfl

/-! A task that no scan reports because as many others were seen before it as the table has slots. -/

theorem run_sleeper {events : List Event} {w : World} (run : Scans events w) (alone : w.live = [])
    {pid : Nat} (taken : pid ≠ 0) :
    ∃ events' w', Scans events' w' ∧ w'.live = [sleeper w.born pid] ∧ w'.log = w.log := by
  have unused : w.Permits (.create pid) := ⟨taken, by simp [alone]⟩
  have created : Scans (events ++ [.create pid]) (w.next (.create pid)) := run.snoc ⟨unused, rfl⟩
  have permitted : (w.next (.create pid)).Permits (.advance w.born taskUninterruptible 1 0) := trivial
  refine ⟨_, _, created.snoc ⟨permitted, rfl⟩, ?_, rfl⟩
  simp [World.next, alone, Task.advance, sleeper]

theorem khungScan_sleeper {w : World} {id pid : Nat} (alone : w.live = [sleeper id pid]) :
    history w.khungScan.log = history w.log ++ [(sleeper id pid).sighting w.scans] ∧
      w.khungScan.live = w.live := by
  rw [World.khungScan, alone]
  simp [World.visit, sleeper_blocked, history, alone]

theorem run_crowd (n : Nat) : ∃ events w, Scans events w ∧ w.live = [] ∧
    firstKeys ((history w.log).map Sighting.pid) = (List.range n).map (· + 1) := by
  induction n with
  | zero => exact ⟨[], World.init, .nil, rfl, rfl⟩
  | succ n ih =>
      obtain ⟨events, w, run, alone, keys⟩ := ih
      obtain ⟨events', w', run', asleep, log⟩ := run_sleeper run alone n.succ_ne_zero
      obtain ⟨appended, live⟩ := khungScan_sleeper asleep
      have permitted : w'.khungScan.Permits (.exit w.born) := trivial
      refine ⟨_, _, (scans_scan run').snoc ⟨permitted, rfl⟩, ?_, ?_⟩
      · simp [World.next, live, asleep, sleeper]
      · have fresh : n + 1 ∉ (List.range n).map (· + 1) := by simp
        change firstKeys ((history w'.khungScan.log).map Sighting.pid) = _
        rw [appended, log, List.map_append, List.map_singleton, firstKeys_append_singleton, keys,
          List.range_succ, List.map_append]
        exact if_neg fresh

theorem full_table_misses_hung_task :
    ∃ before between first second t t', Scans before first ∧
      Run (Guarded World.Permits World.next) first.khungScan between second ∧ .scan ∉ between ∧
      t ∈ first.live ∧ t.Blocked ∧ t' ∈ second.live ∧ t'.Blocked ∧ t'.id = t.id ∧
      t'.switchCount = t.switchCount ∧ ¬ ReportedAt second t' := by
  obtain ⟨events, w, run, alone, keys⟩ := run_crowd htMax
  obtain ⟨before, first, started, asleep, log⟩ := run_sleeper run alone htMax.succ_ne_zero
  obtain ⟨appended, live⟩ := khungScan_sleeper asleep
  have blocked := sleeper_blocked w.born (htMax + 1)
  have alive : sleeper w.born (htMax + 1) ∈ first.live := asleep ▸ List.mem_cons_self
  have full : tracked (history w.log) = (List.range htMax).map (· + 1) := by
    rw [tracked, keys]
    exact List.take_of_length_le (by simp)
  have untracked : htMax + 1 ∉ tracked (history first.khungScan.log) := by
    rw [appended, log, tracked_append_singleton, full, if_pos (Or.inr (by simp))]
    simp
  refine ⟨before, [], first, first.khungScan, _, _, started, .nil, List.not_mem_nil, alive, blocked,
    live ▸ alive, blocked, rfl, rfl, ?_⟩
  obtain ⟨inv, recent⟩ := consistent_of_run started
  have seen : (sleeper w.born (htMax + 1)).sighting first.scans ∈ history first.khungScan.log := by
    rw [appended]
    exact List.mem_append_right _ (List.mem_singleton_self _)
  rw [reportedAt_iff (scans_scan started) (live ▸ alive) blocked seen rfl rfl (khungScan_scans inv recent).symm]
  exact untracked

end LinuxInterview.Lockup
