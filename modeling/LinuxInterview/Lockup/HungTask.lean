import LinuxInterview.Lockup.HungTable
import LinuxInterview.Library.Runs

/-!
# The scans of the small `khungtaskd`

Tasks come and go and pids are used again; a task is told apart by its `id`, which the detector
cannot see.
-/

namespace LinuxInterview.Lockup
open Library

def taskUninterruptible : BitVec 32 := 0x2#32

def taskWakekill : BitVec 32 := 0x100#32

def taskNoload : BitVec 32 := 0x400#32

def Task.Blocked (t : Task) : Prop :=
  t.state &&& taskUninterruptible ≠ 0#32 ∧ t.state &&& taskWakekill = 0#32 ∧
    t.state &&& taskNoload = 0#32

instance (t : Task) : Decidable t.Blocked := inferInstanceAs (Decidable (_ ∧ _))

def Task.advance (id : Nat) (state : BitVec 32) (nvcsw nivcsw : UInt64) (t : Task) : Task :=
  if t.id = id then { t with state := state, nvcsw := nvcsw, nivcsw := nivcsw } else t

@[simp] theorem advance_id (id : Nat) (state : BitVec 32) (nvcsw nivcsw : UInt64) (t : Task) :
    (t.advance id state nvcsw nivcsw).id = t.id := by
  unfold Task.advance
  split <;> rfl

@[simp] theorem advance_pid (id : Nat) (state : BitVec 32) (nvcsw nivcsw : UInt64) (t : Task) :
    (t.advance id state nvcsw nivcsw).pid = t.pid := by
  unfold Task.advance
  split <;> rfl

structure Entry where
  sighting : Sighting
  reported : Bool
  deriving DecidableEq

/-- `log` records which blocked tasks the scans came across and which of them were reported. -/
structure World where
  born : Nat
  live : List Task
  htTab : List HtEntry
  scans : Nat
  log : List Entry

inductive Event
  | create (pid : Nat)
  | exit (id : Nat)
  | advance (id : Nat) (state : BitVec 32) (nvcsw nivcsw : UInt64)
  | scan

def history (log : List Entry) : List Sighting := log.map Entry.sighting

namespace World

def init : World where
  born := 0
  live := []
  htTab := List.replicate htMax ⟨0, 0⟩
  scans := 0
  log := []

def visit (w : World) (t : Task) : World :=
  if t.Blocked then
    let (htTab, reported) := checkOne w.htTab t
    { w with htTab := htTab, log := w.log ++ [⟨t.sighting w.scans, reported⟩] }
  else w

def khungScan (w : World) : World :=
  let visited := w.live.foldl visit w
  { visited with scans := visited.scans + 1 }

def next (w : World) : Event → World
  | .create pid => { w with born := w.born + 1, live := w.live ++ [⟨w.born, pid, 0#32, 0, 0⟩] }
  | .exit id => { w with live := w.live.filter fun t => t.id != id }
  | .advance id state nvcsw nivcsw => { w with
      live := w.live.map (Task.advance id state nvcsw nivcsw) }
  | .scan => w.khungScan

/-- A new task gets a pid that no living task has. -/
def Permits (w : World) : Event → Prop
  | .create pid => pid ≠ 0 ∧ ∀ t ∈ w.live, t.pid ≠ pid
  | _ => True

instance (w : World) : (event : Event) → Decidable (w.Permits event)
  | .create _ => inferInstanceAs (Decidable (_ ∧ _))
  | .exit _ | .advance _ _ _ _ | .scan => isTrue trivial

end World

abbrev Scans := Run (Guarded World.Permits World.next) World.init

/-! ## Chronicles -/

/-- A task keeps its pid, is seen once a scan, and while it lives nobody else is seen under its pid. -/
def Genuine (before : List Sighting) (g : Sighting) : Prop :=
  ∀ e ∈ before, e.task = g.task →
    e.pid = g.pid ∧ e.scan < g.scan ∧ ∃ last, lastUnder g.pid before = some last ∧ last.task = g.task

inductive Chronicle : List Entry → Prop
  | nil : Chronicle []
  | snoc {log : List Entry} {g : Sighting} (earlier : Chronicle log) (genuine : Genuine (history log) g) :
      Chronicle (log ++ [⟨g, decide (Recalled (history log) g)⟩])

theorem Chronicle.of_append {log before after : List Entry} (chronicle : Chronicle log)
    (split : log = before ++ after) : Chronicle before := by
  induction chronicle generalizing after with
  | nil =>
      rw [(List.append_eq_nil_iff.mp split.symm).1]
      exact .nil
  | snoc earlier genuine ih =>
      rcases List.eq_nil_or_concat after with rfl | ⟨init, last, rfl⟩
      · rw [List.append_nil] at split
        exact split ▸ .snoc earlier genuine
      · refine @ih init ?_
        rw [List.concat_eq_append, ← List.append_assoc] at split
        exact (List.append_inj' split rfl).1

theorem Chronicle.entry {log before after : List Entry} (chronicle : Chronicle log) {x : Entry}
    (split : log = before ++ x :: after) :
    Genuine (history before) x.sighting ∧
      (x.reported = true ↔ Recalled (history before) x.sighting) := by
  have upTo : Chronicle (before ++ [x]) :=
    chronicle.of_append (split.trans (List.append_cons before x after))
  generalize whole : before ++ [x] = log at upTo
  cases upTo with
  | nil => simp at whole
  | snoc earlier genuine =>
      obtain ⟨rfl, same⟩ := List.append_inj' whole rfl
      cases same
      exact ⟨genuine, by simp⟩

/-! ## Every run leaves a chronicle -/

structure Population (born : Nat) (live : List Task) : Prop where
  named : ∀ t ∈ live, t.id < born ∧ t.pid ≠ 0
  ids : (live.map Task.id).Nodup
  pids : (live.map Task.pid).Nodup

def Owns (before : List Sighting) (t : Task) : Prop :=
  ∀ e ∈ before, e.task = t.id →
    e.pid = t.pid ∧ ∃ last, lastUnder t.pid before = some last ∧ last.task = t.id

structure Consistent (w : World) : Prop where
  population : Population w.born w.live
  table : w.htTab = rememberedTable (history w.log)
  positive : ∀ e ∈ history w.log, e.pid ≠ 0
  seen : ∀ e ∈ history w.log, e.task < w.born ∧ e.scan ≤ w.scans
  owns : ∀ t ∈ w.live, Owns (history w.log) t
  chronicle : Chronicle w.log

theorem history_append (log : List Entry) (x : Entry) :
    history (log ++ [x]) = history log ++ [x.sighting] := List.map_append

theorem lastUnder_append_singleton (pid : Nat) (before : List Sighting) (g : Sighting) :
    lastUnder pid (before ++ [g]) = if g.pid = pid then some g else lastUnder pid before := by
  rw [lastUnder, latest_append_singleton]
  by_cases same : g.pid = pid
  · simp [same]
  · simp [same, lastUnder]

variable {w : World} {t : Task}

theorem Consistent.owns_append (inv : Consistent w) (alive : t ∈ w.live) (scan : Nat) :
    ∀ other ∈ w.live, Owns (history w.log ++ [t.sighting scan]) other := by
  intro other living e member same
  by_cases self : other = t
  · subst self
    have pid : e.pid = other.pid := by
      rcases List.mem_append.mp member with earlier | now
      · exact (inv.owns other living e earlier same).1
      · rw [List.mem_singleton.mp now]
        rfl
    refine ⟨pid, other.sighting scan, ?_, rfl⟩
    rw [lastUnder_append_singleton]
    exact if_pos rfl
  · have apart : t.pid ≠ other.pid := fun pids => self (List.inj_on_of_nodup_map inv.population.pids living alive pids.symm)
    have earlier : e ∈ history w.log := by
      rcases List.mem_append.mp member with earlier | now
      · exact earlier
      · rw [List.mem_singleton.mp now] at same
        exact absurd (List.inj_on_of_nodup_map inv.population.ids living alive same.symm) self
    have kept : lastUnder other.pid (history w.log ++ [t.sighting scan]) =
        lastUnder other.pid (history w.log) := (lastUnder_append_singleton _ _ _).trans (if_neg apart)
    rw [kept]
    exact inv.owns other living e earlier same

theorem visit_blocked (inv : Consistent w) (alive : t ∈ w.live) (blocked : t.Blocked) :
    w.visit t = { w with
      htTab := rememberedTable (history w.log ++ [t.sighting w.scans])
      log := w.log ++ [⟨t.sighting w.scans,
        decide (Recalled (history w.log) (t.sighting w.scans))⟩] } := by
  have taken := (inv.population.named t alive).2
  rw [World.visit, if_pos blocked, inv.table, checkOne_rememberedTable inv.positive t taken w.scans]

theorem Consistent.visit (inv : Consistent w) (alive : t ∈ w.live)
    (unvisited : ∀ e ∈ history w.log, e.task = t.id → e.scan < w.scans) : Consistent (w.visit t) := by
  by_cases blocked : t.Blocked
  · obtain ⟨born, taken⟩ := inv.population.named t alive
    have genuine : Genuine (history w.log) (t.sighting w.scans) := by
      intro e earlier same
      obtain ⟨pid, own⟩ := inv.owns t alive e earlier same
      exact ⟨pid, unvisited e earlier same, own⟩
    rw [visit_blocked inv alive blocked]
    constructor
    · exact inv.population
    · rw [history_append]
    · rw [history_append, List.forall_mem_append, List.forall_mem_singleton]
      exact ⟨inv.positive, taken⟩
    · rw [history_append, List.forall_mem_append, List.forall_mem_singleton]
      exact ⟨inv.seen, born, le_rfl⟩
    · rw [history_append]
      exact inv.owns_append alive w.scans
    · exact inv.chronicle.snoc genuine
  · rw [World.visit, if_neg blocked]
    exact inv

theorem visit_frame (w : World) (t : Task) :
    (w.visit t).live = w.live ∧ (w.visit t).born = w.born ∧ (w.visit t).scans = w.scans ∧
      ∀ e ∈ history (w.visit t).log, e ∈ history w.log ∨ e = t.sighting w.scans := by
  unfold World.visit
  split
  · refine ⟨rfl, rfl, rfl, fun e member => ?_⟩
    rw [history_append] at member
    exact (List.mem_append.mp member).imp_right List.mem_singleton.mp
  · exact ⟨rfl, rfl, rfl, fun e member => Or.inl member⟩

theorem Consistent.foldl_visit {ts : List Task} (inv : Consistent w) (alive : ∀ t ∈ ts, t ∈ w.live)
    (distinct : (ts.map Task.id).Nodup)
    (unvisited : ∀ t ∈ ts, ∀ e ∈ history w.log, e.task = t.id → e.scan < w.scans) :
    Consistent (ts.foldl World.visit w) ∧ (ts.foldl World.visit w).live = w.live ∧
      (ts.foldl World.visit w).scans = w.scans := by
  induction ts generalizing w with
  | nil => exact ⟨inv, rfl, rfl⟩
  | cons t ts ih =>
      obtain ⟨apart, rest⟩ := List.nodup_cons.mp distinct
      obtain ⟨live, _, scans, log⟩ := visit_frame w t
      have visited := inv.visit (alive t List.mem_cons_self) (unvisited t List.mem_cons_self)
      have result := ih visited
        (fun other member => live ▸ alive other (List.mem_cons_of_mem t member)) rest ?_
      · rwa [live, scans] at result
      · intro other member e inside same
        rw [scans]
        rcases log e inside with earlier | now
        · exact unvisited other (List.mem_cons_of_mem t member) e earlier same
        · rw [now] at same
          exact absurd (List.mem_map.mpr ⟨other, member, same.symm⟩) apart

/-! ## Events -/

theorem Population.create {born : Nat} {live : List Task} (inv : Population born live) {pid : Nat}
    (taken : pid ≠ 0) (unused : ∀ t ∈ live, t.pid ≠ pid) (state : BitVec 32) (nvcsw nivcsw : UInt64) :
    Population (born + 1) (live ++ [⟨born, pid, state, nvcsw, nivcsw⟩]) where
  named := by
    rw [List.forall_mem_append, List.forall_mem_singleton]
    exact ⟨fun t living => (inv.named t living).imp_left Nat.lt_succ_of_lt, Nat.lt_succ_self born, taken⟩
  ids := by
    rw [List.map_append, List.map_singleton, ← List.concat_eq_append]
    apply List.Nodup.concat _ inv.ids
    intro known
    obtain ⟨t, living, same⟩ := List.mem_map.mp known
    exact absurd same (inv.named t living).1.ne
  pids := by
    rw [List.map_append, List.map_singleton, ← List.concat_eq_append]
    apply List.Nodup.concat _ inv.pids
    intro known
    obtain ⟨t, living, same⟩ := List.mem_map.mp known
    exact unused t living same

theorem Consistent.next (inv : Consistent w) (recent : ∀ e ∈ history w.log, e.scan < w.scans)
    {event : Event} (permitted : w.Permits event) :
    Consistent (w.next event) ∧ ∀ e ∈ history (w.next event).log, e.scan < (w.next event).scans := by
  cases event with
  | create pid =>
      refine ⟨?_, recent⟩
      exact { inv with
        population := inv.population.create permitted.1 permitted.2 _ _ _
        seen := fun e member => (inv.seen e member).imp_left Nat.lt_succ_of_lt
        owns := by
          rw [World.next, List.forall_mem_append, List.forall_mem_singleton]
          refine ⟨inv.owns, fun e member same => ?_⟩
          exact absurd same (inv.seen e member).1.ne }
  | exit id =>
      refine ⟨?_, recent⟩
      exact { inv with
        population := {
          named := fun t member => inv.population.named t (List.mem_of_mem_filter member)
          ids := inv.population.ids.sublist (List.filter_sublist.map _)
          pids := inv.population.pids.sublist (List.filter_sublist.map _) }
        owns := fun t member => inv.owns t (List.mem_of_mem_filter member) }
  | advance id state nvcsw nivcsw =>
      refine ⟨?_, recent⟩
      exact { inv with
        population := {
          named := by simpa [World.next] using inv.population.named
          ids := by simpa [World.next, Function.comp_def] using inv.population.ids
          pids := by simpa [World.next, Function.comp_def] using inv.population.pids }
        owns := by simpa [World.next, Owns] using inv.owns }
  | scan =>
      have unvisited : ∀ t ∈ w.live, ∀ e ∈ history w.log, e.task = t.id → e.scan < w.scans :=
        fun _ _ e member _ => recent e member
      obtain ⟨visited, live, scans⟩ :=
        inv.foldl_visit (fun t member => member) inv.population.ids unvisited
      constructor
      · exact { visited with
          seen := fun e member => (visited.seen e member).imp_right Nat.le_succ_of_le }
      · exact fun e member => Nat.lt_succ_of_le (visited.seen e member).2

theorem consistent_of_run {events : List Event} (run : Scans events w) :
    Consistent w ∧ ∀ e ∈ history w.log, e.scan < w.scans := by
  refine Run.invariant (fun w => Consistent w ∧ ∀ e ∈ history w.log, e.scan < w.scans) ?_ ?_ run
  · constructor
    · constructor
      case population => exact ⟨by simp [World.init], List.nodup_nil, List.nodup_nil⟩
      case table => rfl
      case chronicle => exact Chronicle.nil
      all_goals simp [World.init, history]
    · intro e member
      cases member
  · rintro before event after ⟨inv, recent⟩ ⟨permitted, rfl⟩
    exact inv.next recent permitted

end LinuxInterview.Lockup
