import LinuxInterview.CrashProbe.Rwsem
import LinuxInterview.RwsemLab.Unload

/-!
# `lab_sem` as `crash_probe.c` shows it

The command `rwsem` is meant to be given the address of `lab_sem` while the threads contend for it.
-/

namespace LinuxInterview.RwsemLab
open Library CrashProbe

variable {s : State} {address : Lab → Word} {tasks : Word → TaskStruct} {sem : RwSemaphore}

theorem State.access_of_standing {t : Lab} {a : Access} (standing : s.standing t = .holding a ∨ s.standing t = .waiting a) :
    t.access = a := by
  unfold State.standing at standing
  cases here : s.labs t <;> simp_all [LabAt.standing]

theorem card_readers (inv : Inv s) :
    s.labSem.readers.card = if s.standing .rd1 = .holding .read then 1 else 0 := by
  have only : ∀ t ∈ s.labSem.readers, t = .rd1 := by
    intro t held
    have access := State.access_of_standing (.inl ((inv.sem.readers t).mp held))
    cases t
    · cases access
    · rfl
    · cases access
  split
  · rename_i holding
    have alone : s.labSem.readers = {.rd1} := by
      apply Finset.eq_singleton_iff_unique_mem.mpr
      exact ⟨(inv.sem.readers .rd1).mpr holding, only⟩
    rw [alone, Finset.card_singleton]
  · rename_i elsewhere
    apply Finset.card_eq_zero.mpr
    apply Finset.eq_empty_of_forall_notMem
    intro t held
    have reader := only t held
    subst reader
    exact elsewhere ((inv.sem.readers _).mp held)

variable (tasks) in
/-- In every reachable state the command names the thread that holds the lock and lists the threads of the lab that
queue for it, each once, and nothing else. -/
theorem rwsem_shows_lab {events : List Event} (run : Runs events s) (distinct : Function.Injective address)
    (shown : Represents address s.labSem sem) :
    (∀ t, (cmdRwsem tasks sem).holder = .writer (tasks (address t)).pid (tasks (address t)).comm (address t) ↔
        s.standing t = .holding .write) ∧
      (cmdRwsem tasks sem).readers = (if s.standing .rd1 = .holding .read then 1 else 0) +
        (if (cmdRwsem tasks sem).readFail then 2 ^ 55 else 0) ∧
      (∀ t a, (∃ l ∈ (cmdRwsem tasks sem).waiters, l.task = address t ∧ l.access = a) ↔ s.standing t = .waiting a) ∧
      (∀ l ∈ (cmdRwsem tasks sem).waiters, ∃ t, l.task = address t ∧ s.standing t = .waiting l.access) ∧
      ((cmdRwsem tasks sem).waiters.map WaiterLine.task).Nodup := by
  have inv := inv_of_run run
  have report := cmdRwsem_reports tasks distinct shown
  refine ⟨?_, ?_, ?_, ?_, ?_⟩
  · intro t
    rw [← report.writer, inv.sem.writer]
  · rw [report.readers, card_readers inv]
    split <;> rfl
  · intro t a
    rw [← inv.sem.queue, report.waiters]
    constructor
    · rintro ⟨l, member, place, access⟩
      obtain ⟨n, bound, rfl⟩ := List.mem_mapIdx.mp member
      have here : s.labSem.queue[n] = (t, a) := Prod.ext (distinct place) access
      exact here ▸ List.getElem_mem bound
    · intro member
      obtain ⟨n, bound, here⟩ := List.getElem_of_mem member
      refine ⟨_, List.mem_mapIdx.mpr ⟨n, bound, rfl⟩, ?_⟩
      rw [here]
      exact ⟨rfl, rfl⟩
  · intro l listed
    rw [report.waiters] at listed
    obtain ⟨n, bound, rfl⟩ := List.mem_mapIdx.mp listed
    exact ⟨s.labSem.queue[n].1, rfl, (inv.sem.queue _ _).mp (List.getElem_mem bound)⟩
  · have places : (cmdRwsem tasks sem).waiters.map WaiterLine.task = (s.labSem.queue.map Prod.fst).map address := by
      rw [report.waiters]
      apply List.ext_getElem?
      intro n
      simp only [List.getElem?_map, List.getElem?_mapIdx, Option.map_map]
      rfl
    rw [places]
    exact inv.sem.once.map distinct

def labAddress : Lab → Word
  | .holder => 0x1000
  | .rd1 => 0x2000
  | .wr2 => 0x3000

theorem rwsem_shows_lab_contended :
    ∃ s, Runs (contended.take 17) s ∧
      ((cmdRwsem (fun _ => ⟨2, 7, "rwsem"⟩) ⟨3, 0x1000, [⟨0x2000, 1⟩, ⟨0x3000, 0⟩]⟩).holder = .writer 7 "rwsem" 0x1000 ↔
        s.standing .holder = .holding .write) ∧ s.standing .holder = .holding .write := by
  have reached : ((contended.take 17).foldlM step .init).map (fun s =>
      (s.labSem.writer, s.labSem.readers, s.labSem.queue, s.standing .holder)) =
        some (some .holder, ∅, [(.rd1, .read), (.wr2, .write)], .holding .write) := by decide
  obtain ⟨s, fired, here⟩ := Option.map_eq_some_iff.mp reached
  simp only [Prod.mk.injEq] at here
  obtain ⟨held, unread, queued, standing⟩ := here
  have distinct : Function.Injective labAddress := by
    intro t u same
    cases t <;> cases u <;> first | rfl | exact absurd same (by decide)
  have shown : Represents labAddress s.labSem ⟨3, 0x1000, [⟨0x2000, 1⟩, ⟨0x3000, 0⟩]⟩ := by
    constructor
    · rw [held]
      decide
    · rw [queued]
      decide
    · rw [unread]
      decide
    · intro t mine
      rw [held] at mine
      cases mine
      decide
    · intro reader
      rw [unread] at reader
      exact absurd reader Finset.not_nonempty_empty
    · intro nobody
      rw [held] at nobody
      cases nobody
    · rw [queued]
      rfl
    · intro t
      cases t <;> decide
    · intro t
      cases t <;> decide
  obtain ⟨names, -⟩ := rwsem_shows_lab (fun _ => ⟨2, 7, "rwsem"⟩) (run_of_foldlM fired) distinct shown
  exact ⟨s, run_of_foldlM fired, names .holder, standing⟩

end LinuxInterview.RwsemLab
